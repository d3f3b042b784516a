import PacedNet.Config.Line
import PacedNet.Config.Node

/-!
# One source on its own

A source is read line by line into the tree it defines itself and the list of
its inclusions, each with the section it stands in. Inclusions are not followed
here: what a source says does not depend on any other.
-/

namespace PacedNet.Config

/-- An inclusion and the section it stands in. -/
structure Inclusion where
  scope : List String
  name : String
deriving DecidableEq, Repr

/-- What has been read so far. -/
structure Scan where
  root : Node
  current : List String
  declared : List (List String)
  inclusions : List Inclusion

/-- What a line may break: its own form, or the one meaning of a name. -/
inductive Breach where
  | malformed (fault : LineFault)
  | duplicate (scope key : String)
deriving DecidableEq, Repr

def Breach.toError (source : String) (line : Nat) : Breach → ConfigError
  | malformed fault => .malformed source line fault
  | duplicate scope key => .duplicate source line scope key

namespace Scan

def start : Scan := ⟨.root, [], [], []⟩

/-- Opens the section of a heading, which no heading may do twice. -/
def heading (s : Scan) (names : List String) : Except Breach Scan :=
  if s.declared.contains names then
    .error (.duplicate (".".intercalate names.dropLast) (names.getLast?.getD ""))
  else match s.root.openAt names with
    | .error (scope, key) => .error (.duplicate scope key)
    | .ok root => .ok { s with root, current := names, declared := s.declared ++ [names] }

/-- Adds an entry to the current section, where its name has to be free. -/
def entry (s : Scan) (key value : String) : Except Breach Scan :=
  let node := s.root.nodeAt s.current
  if node.hasName key then .error (.duplicate node.path key)
  else .ok { s with root := s.root.modifyAt (·.addEntry key value) s.current }

def apply (s : Scan) : Line → Except Breach Scan
  | .blank => .ok s
  | .heading names => s.heading names
  | .entry key value => s.entry key value
  | .inclusion name => .ok { s with inclusions := s.inclusions ++ [⟨s.current, name⟩] }

def step (s : Scan) (line : List Char) : Except Breach Scan :=
  match Line.read line with
  | .error fault => .error (.malformed fault)
  | .ok record => s.apply record

/-- Reads lines from a line number on; the first breach ends it. -/
def run (source : String) : Nat → Scan → List (List Char) → Except ConfigError Scan
  | _, s, [] => .ok s
  | number, s, line :: rest =>
    match s.step line with
    | .error breach => .error (breach.toError source number)
    | .ok s => run source (number + 1) s rest

end Scan

/-- Reads a source under the name that errors give it. -/
def scan (source text : String) : Except ConfigError Scan :=
  Scan.run source 1 .start (textLines text.toList)

end PacedNet.Config
