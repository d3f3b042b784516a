import PacedNet.Host.State

/-!
# The files of a host

Files and sockets have names in one tree. A path is walked from the root or from
the host's home, and each component but the last has to be a directory. The only
directories are the root and the home.
-/

namespace PacedNet

namespace Host

/-- The directory that relative paths start from. -/
def home : Place := ["home".toUTF8.toList]

/-- The components of a path, empty ones too. -/
def components (path : List UInt8) : List (List UInt8) := path.splitOn 0x2F

/-- The place a path starts from. -/
def origin (path : List UInt8) : Place := if path.head? = some 0x2F then [] else home

def isDirectory (place : Place) : Bool := place == [] || place == home

variable (h : Host)

def holds (place : Place) : Bool := isDirectory place || (h.nodes.lookup place).isSome

def walk : Place → List (List UInt8) → Except Errno Place
  | place, [] => .ok place
  | place, piece :: rest =>
    if !isDirectory place then .error .notADirectory
    else if piece = [] ∨ piece = [0x2E] then walk place rest
    else if piece = [0x2E, 0x2E] then walk place.dropLast rest
    else if h.holds (place ++ [piece]) then walk (place ++ [piece]) rest
    else .error .notFound

def locate (path : List UInt8) : Except Errno Place :=
  if path = [] then .error .notFound else h.walk (origin path) (components path)

def fileExists (path : List UInt8) : Bool := (h.locate path).isOk

/-- The place that a new file at a path gets. -/
def vacancy (path : List UInt8) : Except Errno Place :=
  match h.locate path with
  | .ok _ => .error .addressInUse
  | .error .notFound =>
    match (components path).getLast? with
    | some (b :: name) => do
      let directory ← h.walk (origin path) (components path).dropLast
      .ok (directory ++ [b :: name])
    | _ => .error .notFound
  | .error e => .error e

/-- Makes an empty file unless there is something at the path. -/
def makeFile (path : List UInt8) : Host :=
  match h.vacancy path with
  | .ok place => { h with nodes := (place, .plain) :: h.nodes }
  | .error _ => h

/-- Removes the name of a file or of a socket. -/
def unlink (path : List UInt8) : Except Errno Unit × Host :=
  match h.locate path with
  | .error errno => (.error errno, h)
  | .ok place =>
    if isDirectory place then (.error .isADirectory, h)
    else if h.appendOnly then (.error .notPermitted, h)
    else (.ok (), { h with nodes := h.nodes.filter (·.1 ≠ place) })

def stationAt (path : List UInt8) : Except Errno Descriptor := do
  match h.nodes.lookup (← h.locate path) with
  | some (.station d) => .ok d
  | _ => .error .connectionRefused

end Host

end PacedNet
