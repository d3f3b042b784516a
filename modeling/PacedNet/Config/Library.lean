import PacedNet.Config.Source

/-!
# Sources that include each other

A library is where names of inclusions are looked up: among the registered
sources first, then among the files, relative to the including file and to the
search directory. An inclusion is read like any source, its own inclusions
first, and then fills the section it stands in with what that does not define.

Every source has a key, the name it is registered under or the canonical path of
its file as it is displayed, with a mark for what is not text. The keys of the
sources being read form a chain, and a key that would stand on it twice is a
cycle. There are only so many keys, so a chain longer than their number has to
repeat one: that bounds the depth of inclusions.
-/

namespace PacedNet.Config

structure Located where
  /-- What tells it from all others. -/
  key : String
  /-- What errors call it. -/
  name : String
  text : String
  /-- Where the files it includes are looked for first. -/
  directory : Option (List UInt8)
deriving DecidableEq, Repr

structure Library where
  sources : List (String × String)
  searchDirectory : Option (List UInt8)
  files : FileTree

namespace Library

/-- Registers a source; the last of a name counts. -/
def register (l : Library) (name text : String) : Library :=
  { l with sources := (name, text) :: l.sources }

def findFile (l : Library) (name : List UInt8) (directory : Option (List UInt8)) :
    Option (List UInt8) :=
  if Path.isAbsolute name then (if l.files.isFile name then some name else none)
  else
    (directory.toList ++ l.searchDirectory.toList).map (Path.join · name) |>.find? l.files.isFile

/-- The key of the file that a path leads to. -/
def fileKey (l : Library) (path : List UInt8) : String := Text.decodeLossy (l.files.canonical path)

def locate (l : Library) (name : String) (directory : Option (List UInt8)) :
    Except ConfigError Located :=
  match l.sources.lookup name with
  | some text => .ok ⟨name, name, text, directory⟩
  | none =>
    match l.findFile (Text.encode name) directory with
    | none => .error (.inclusion name .unknown)
    | some file =>
      match l.files.readText file with
      | .error fault => .error (.inclusion name (.unreadable (Text.decodeLossy file) fault))
      | .ok text => .ok ⟨l.fileKey file, Text.decodeLossy file, text, Path.parent? file⟩

/-- More than there are keys. -/
def depth (l : Library) : Nat := l.sources.length + l.files.entries.length + 1

/-- Reads a source and all it includes, below a chain of keys. -/
def expand (l : Library) : Nat → List String → Located → Except ConfigError Node
  | 0, chain, source => .error (.inclusion source.name (.cycle chain))
  | n + 1, chain, source => do
    let own ← scan source.name source.text
    own.inclusions.foldlM (fun root inclusion => do
      let found ← l.locate inclusion.name source.directory
      if chain.contains found.key then
        .error (.inclusion found.name (.cycle (chain ++ [found.key])))
      else
        let tree ← l.expand n (chain ++ [found.key]) found
        return root.modifyAt (·.fill tree) inclusion.scope) own.root

def parseText (l : Library) (text : String) : Except ConfigError Node :=
  l.expand l.depth [] ⟨"", "<string>", text, none⟩

/-- The configuration of a source, found as an inclusion would find it. -/
def parseSource (l : Library) (name : String) : Except ConfigError Node := do
  let source ← l.locate name none
  l.expand l.depth [source.key] source

def parseFile (l : Library) (path : List UInt8) : Except ConfigError Node :=
  match l.files.readText path with
  | .error fault => .error (.unreadable (Text.decodeLossy path) fault)
  | .ok text =>
    let key := l.fileKey path
    l.expand l.depth [key] ⟨key, Text.decodeLossy path, text, Path.parent? path⟩

def empty : Library := ⟨[], none, ⟨[], []⟩⟩

end Library

end PacedNet.Config
