import PacedNet.ByteSize

/-!
# Bandwidth quotas

A quota is a fraction of a capacity, together with a token bucket that paces
whoever draws on it. A grant is issued at once and may leave the bucket in debt;
the debt divided by the rate is how long the holder of the grant has to wait.

* The **fraction** is a number in `[0, 1]`; a setter that refuses keeps the old one.
* The **burst** is what a full bucket may release at once, and at least one byte,
  so that a paced transfer always makes progress.
* Time is a parameter: an operation is told the instant it happens at.
-/

namespace PacedNet

/-- How the product of capacity and fraction becomes a whole number of bytes. -/
inductive Rounding where
  | nearest
  | down
  | up
deriving DecidableEq, Repr

namespace Rounding

def apply : Rounding → Rat → Int
  | nearest => roundHalfAway
  | down => Rat.floor
  | up => Rat.ceil

def name : Rounding → String
  | nearest => "Nearest"
  | down => "Down"
  | up => "Up"

end Rounding

inductive FractionFault where
  /-- Neither a decimal nor a byte size. -/
  | size (fault : SizeFault)
  /-- A decimal by its shape, and yet no number. -/
  | badNumber (number : String)
  /-- A byte size is no share of an empty capacity. -/
  | emptyCapacity
deriving DecidableEq, Repr

def FractionFault.message : FractionFault → String
  | size fault => fault.message
  | badNumber number =>
    s!"failed to interpret {Text.quoted number} as a number: invalid float literal"
  | emptyCapacity => "capacity is zero"

/-- What making or changing a quota may end with. -/
inductive QuotaError where
  | unreadable (input : String) (fault : FractionFault)
  | outOfRange (fraction : Binary64)
deriving DecidableEq

def QuotaError.message : QuotaError → String
  | unreadable input fault => s!"failed to parse quota {Text.quoted input}: {fault.message}"
  | outOfRange fraction => s!"quota fraction {fraction.plainText} outside [0, 1]"

/-- A point in time, in nanoseconds. -/
abbrev Instant := Nat

/-- A span of time, in nanoseconds. -/
abbrev Duration := Nat

namespace Duration

def nanosPerSecond : Nat := 1000000000

def toSeconds (d : Duration) : Binary64 :=
  (Binary.ofInt (d / nanosPerSecond)).add
    ((Binary.ofInt (d % nanosPerSecond)).div (.ofInt nanosPerSecond))

/-- The span of a number of seconds, to the nearest nanosecond; none when it has no place in 64
bits of seconds. -/
def ofSeconds? (x : Binary64) : Option Duration :=
  match x with
  | .finite false s =>
    let nanos := (roundHalfEven (s * nanosPerSecond)).toNat
    if nanos < 18446744073709551616 * nanosPerSecond then some nanos else none
  | _ => none

end Duration

/-- The tokens left and when they were last counted. -/
structure Bucket where
  tokens : Binary64
  refilled : Instant
deriving DecidableEq

/-- A share of a capacity and the bucket that paces it. -/
structure Quota where
  capacity : ByteSize
  fraction : Binary64
  rounding : Rounding
  bucket : Bucket
deriving DecidableEq

/-- What asking a bucket for bytes comes to. -/
inductive Grant where
  /-- The rate is zero: nothing may ever pass. -/
  | refused
  /-- That many bytes may pass after a wait. -/
  | granted (bytes : Nat) (wait : Duration)
  /-- The wait is beyond all durations. -/
  | endless
deriving DecidableEq, Repr

namespace Quota

/-- The most bytes a full bucket of that rate holds: a tenth of a second of traffic, in whole bytes,
and one byte at least. -/
def burstFor (rate : Binary64) : Binary64 :=
  ((rate.mul (.ofDecimal false ⟨1, -1⟩)).greater .one).toIntegral Rat.floor

def inRange (fraction : Binary64) : Bool :=
  Binary.zero.numLe fraction && fraction.numLe .one

/-- The quota of a fraction, with a full bucket. -/
def full (now : Instant) (capacity : ByteSize) (fraction : Binary64) : Quota :=
  { capacity, fraction, rounding := .nearest,
    bucket := ⟨burstFor (capacity.toBinary.mul fraction), now⟩ }

def unlimited (now : Instant) (capacity : ByteSize) : Quota := full now capacity .one

def new (now : Instant) (capacity : ByteSize) (fraction : Binary64) : Except QuotaError Quota :=
  if inRange fraction then .ok (full now capacity fraction) else .error (.outOfRange fraction)

def ofAllotted (now : Instant) (capacity allotted : ByteSize) : Except QuotaError Quota :=
  if capacity.bytes ≤ 0 then .error (.unreadable allotted.display .emptyCapacity)
  else new now capacity (allotted.ratio capacity)

/-! ## The fraction -/

/-- A decimal, or a percentage if `%` follows, with blanks around both; none for any other shape. -/
def readShare (s : List Char) : Option (Except FractionFault Binary64) :=
  let trimmed := Text.trim s
  let (number, divisor) :=
    if trimmed.getLast? = some '%' then (Text.trimEnd trimmed.dropLast, 100) else (trimmed, 1)
  let whole := number.takeWhile isDigit
  let tailOk :=
    match number.dropWhile isDigit with
    | [] => true
    | '.' :: fraction => fraction.all isDigit
    | _ => false
  if whole.isEmpty || !tailOk then none
  else match (Binary.read? number : Option Binary64) with
    | some value => some (.ok (value.div (.ofInt divisor)))
    | none => some (.error (.badNumber (String.ofList number)))

/-- Reads a fraction: `0.25`, `25%`, or a byte size relative to the capacity. -/
def parseFraction (q : Quota) (text : String) : Except QuotaError Binary64 :=
  match readShare text.toList with
  | some (.ok value) => .ok value
  | some (.error fault) => .error (.unreadable text fault)
  | none =>
    match ByteSize.parse text with
    | .error e => .error (.unreadable text (.size e.fault))
    | .ok allotted =>
      if q.capacity.bytes ≤ 0 then .error (.unreadable text .emptyCapacity)
      else .ok (allotted.ratio q.capacity)

def setFraction (q : Quota) (fraction : Binary64) : Except QuotaError Quota :=
  if inRange fraction then .ok { q with fraction } else .error (.outOfRange fraction)

def setFractionText (q : Quota) (text : String) : Except QuotaError Quota := do
  q.setFraction (← q.parseFraction text)

def parse (now : Instant) (capacity : ByteSize) (text : String) : Except QuotaError Quota :=
  (unlimited now capacity).setFractionText text

/-! ## What is allotted -/

def allotted (q : Quota) : ByteSize :=
  let product := q.capacity.toBinary.mul q.fraction
  .clamp (product.clampTo ByteSize.least.bytes ByteSize.greatest.bytes q.rounding.apply)

def rate (q : Quota) : Binary64 := (Binary.ofInt (max q.capacity.bytes 0)).mul q.fraction

def burst (q : Quota) : Nat := ((burstFor q.rate).clampTo 0 18446744073709551615 truncate).toNat

def display (q : Quota) : String := q.allotted.display

/-- The text that shows all of a quota but its bucket. -/
def describe (q : Quota) : String :=
  let fields :=
    [s!"capacity: ByteSize({q.capacity.bytes})", s!"fraction: {q.fraction.exactText}",
     s!"rounding: {q.rounding.name}"]
  "Quota \x7b " ++ ", ".intercalate fields ++ " \x7d"

/-- Same capacity and numerically the same fraction. -/
def same (p q : Quota) : Bool := p.capacity == q.capacity && p.fraction.numEq q.fraction

/-- A quota like another that paces on its own. -/
def clone (now : Instant) (q : Quota) : Quota :=
  { full now q.capacity q.fraction with rounding := q.rounding }

/-! ## Pacing -/

/-- Fills the bucket for the time that passed, up to the burst. -/
def refill (q : Quota) (now : Instant) : Binary64 :=
  let elapsed := Duration.toSeconds (now - q.bucket.refilled)
  (q.bucket.tokens.add (elapsed.mul q.rate)).lesser (burstFor q.rate)

/-- Takes bytes from the bucket, on credit if need be, and says how long to wait for them. -/
def reserve (q : Quota) (now : Instant) (bytes : Nat) : Grant × Quota :=
  if q.rate.numLe .zero || !q.rate.isFinite then (.refused, q)
  else if bytes = 0 then (.granted 0 0, q)
  else
    let tokens := (q.refill now).sub (.ofInt bytes)
    let charged := { q with bucket := ⟨tokens, now⟩ }
    let debt := tokens.neg
    if Binary.zero.numLt debt then
      match Duration.ofSeconds? (debt.div q.rate) with
      | some wait => (.granted bytes wait, charged)
      | none => (.endless, charged)
    else (.granted bytes 0, charged)

/-- Asks for up to `want` bytes and gets one burst at most. -/
def throttle (q : Quota) (now : Instant) (want : Nat) : Grant × Quota :=
  q.reserve now (min want q.burst)

/-- Asks for bytes that must pass as one. -/
def throttleExact (q : Quota) (now : Instant) (bytes : Nat) : Grant × Quota :=
  q.reserve now bytes

end Quota

end PacedNet
