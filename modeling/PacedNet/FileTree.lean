import PacedNet.Text.Utf8

/-!
# Files and paths

A tree of files as a value: what lies at each absolute path, and the directory
that relative paths start from. Names are octets and need not be text. A path is
walked one component at a time, and every component but the last has to be a
directory, also in front of `..`.

There are no symbolic links, so the components reached by a walk name a file in
one way only; that name is its `canonical` path.
-/

namespace PacedNet

inductive FileFault where
  | notFound
  | notADirectory
  | isADirectory
  | nameTooLong
  | nulInName
  | notText
deriving DecidableEq, Repr

def FileFault.message : FileFault → String
  | notFound => "No such file or directory (os error 2)"
  | notADirectory => "Not a directory (os error 20)"
  | isADirectory => "Is a directory (os error 21)"
  | nameTooLong => "File name too long (os error 36)"
  | nulInName => "file name contained an unexpected NUL byte"
  | notText => "stream did not contain valid UTF-8"

/-! ## Paths -/

namespace Path

/-- The pieces between separators, empty ones too. -/
def pieces (path : List UInt8) : List (List UInt8) := path.splitOn 0x2F

def isAbsolute (path : List UInt8) : Bool := path.head? == some 0x2F

def join (directory path : List UInt8) : List UInt8 :=
  if isAbsolute path || directory.isEmpty then path
  else if directory.getLast? = some 0x2F then directory ++ path
  else directory ++ 0x2F :: path

/-- Drops separators and `.` at the end; the bound is the number of pieces. -/
def dropTrailing : Nat → List (List UInt8) → List (List UInt8)
  | 0, pieces => pieces
  | n + 1, pieces =>
    if 1 < pieces.length ∧ (pieces.getLast? = some [] ∨ pieces.getLast? = some [0x2E]) then
      dropTrailing n pieces.dropLast
    else pieces

/-- The directory a path lies in; none for the root and for the empty path. -/
def parent? (path : List UInt8) : Option (List UInt8) :=
  let all := pieces path
  match dropTrailing all.length all with
  | [[]] => none
  | [_] => some []
  | kept =>
    let above := dropTrailing kept.length kept.dropLast
    some (if above = [[]] then [0x2F] else [0x2F].intercalate above)

end Path

inductive FileEntry where
  | file (content : List UInt8)
  | directory
deriving DecidableEq, Repr

/-- Files and directories by their absolute path, and the directory relative paths start from. -/
structure FileTree where
  home : List (List UInt8)
  entries : List (List (List UInt8) × FileEntry)

namespace FileTree

/-- Something lies at the path, or below it. -/
def holds (t : FileTree) (place : List (List UInt8)) : Bool :=
  place.isPrefixOf t.home || t.entries.any fun e => place.isPrefixOf e.1

def isDirectory (t : FileTree) (place : List (List UInt8)) : Bool :=
  t.holds place &&
    match t.entries.lookup place with
    | some (.file _) => false
    | _ => true

def walk (t : FileTree) : List (List UInt8) → List (List UInt8) →
    Except FileFault (List (List UInt8))
  | place, [] => .ok place
  | place, piece :: rest =>
    if !t.isDirectory place then .error .notADirectory
    else if piece = [] ∨ piece = [0x2E] then t.walk place rest
    else if piece = [0x2E, 0x2E] then t.walk place.dropLast rest
    else if 255 < piece.length then .error .nameTooLong
    else if t.holds (place ++ [piece]) then t.walk (place ++ [piece]) rest
    else .error .notFound

def resolve (t : FileTree) (path : List UInt8) : Except FileFault (List (List UInt8)) :=
  if path.contains 0 then .error .nulInName
  else if path.isEmpty then .error .notFound
  else if 4096 ≤ path.length then .error .nameTooLong
  else t.walk (if Path.isAbsolute path then [] else t.home) (Path.pieces path)

def isFile (t : FileTree) (path : List UInt8) : Bool :=
  match t.resolve path with
  | .ok place => !t.isDirectory place
  | .error _ => false

def readText (t : FileTree) (path : List UInt8) : Except FileFault String := do
  let place ← t.resolve path
  match t.entries.lookup place with
  | some (.file content) =>
    match Text.decode? content with
    | some text => .ok text
    | none => .error .notText
  | _ => .error .isADirectory

/-- The one absolute name of what a path leads to. -/
def canonical (t : FileTree) (path : List UInt8) : List UInt8 :=
  match t.resolve path with
  | .ok place => 0x2F :: [0x2F].intercalate place
  | .error _ => path

end FileTree

end PacedNet
