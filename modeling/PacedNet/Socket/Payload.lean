import PacedNet.Text.Utf8

/-!
# What a send transmits

A payload is one run of octets or a list of records. Records travel joined by a
separator octet; the receiving side splits at every separator.
-/

namespace PacedNet

/-- The octet a receiver answers with when acknowledgement is on. -/
def acknowledgement : UInt8 := 0x06

/-- The octet between two records. -/
def recordSeparator : UInt8 := 0x1E

/-- How many connections may wait when nothing else is configured. -/
def defaultBacklog : Int := 50

/-- How much is received at a time when nothing else is configured. -/
def defaultReadChunk : Nat := 1024

inductive Payload where
  | single (octets : List UInt8)
  | records (parts : List (List UInt8))
deriving DecidableEq, Repr

namespace Payload

/-- Octets of the payload itself, separators apart. -/
def length : Payload → Nat
  | single s => s.length
  | records parts => parts.flatten.length

def isEmpty (p : Payload) : Bool := p.length == 0

def encode : Payload → List UInt8
  | single s => s
  | records parts => [recordSeparator].intercalate parts

end Payload

def splitRecords (s : List UInt8) : List (List UInt8) := s.splitOn recordSeparator

structure SendReport where
  payloadBytes : Nat
  /-- Octets the transport took, separators included. -/
  wireBytes : Nat
  /-- Calls it took them in. -/
  chunks : Nat
deriving DecidableEq, Repr

def SendReport.text (r : SendReport) : String :=
  let fields :=
    [s!"payload_bytes: {r.payloadBytes}", s!"wire_bytes: {r.wireBytes}", s!"chunks: {r.chunks}"]
  "SendReport \x7b " ++ ", ".intercalate fields ++ " \x7d"

end PacedNet
