import PacedNet.Config.Error

/-!
# The tree of sections

A node is one section: its entries and its child sections, both in the order of
their declaration. A name means one thing in a section, an entry or a child, and
is looked up in an index that says where its bearer stands.

A node knows its dotted path. `setChild` and `fill` keep paths right: a child
is created below its parent's path, and a subtree that moves is rebased.
-/

namespace PacedNet.Config

structure Index where
  places : List (String × Nat)
deriving DecidableEq, Repr, Inhabited

namespace Index

def empty : Index := ⟨[]⟩

def find? (ix : Index) (name : String) : Option Nat := ix.places.lookup name

/-- Notes a place for a name, in the stead of the one it had. -/
def insert (ix : Index) (name : String) (place : Nat) : Index :=
  ⟨ix.places.filter (·.1 != name) ++ [(name, place)]⟩

end Index

structure Node where
  name : String
  path : String
  entries : List (String × String)
  entryIndex : Index
  sections : List Node
  sectionIndex : Index
deriving Repr, Inhabited

namespace Node

mutual

/-- Equality of nodes, decided from the root down. -/
def decideEq : (a b : Node) → Decidable (a = b)
  | ⟨n, p, e, i, s, j⟩, ⟨n', p', e', i', s', j'⟩ =>
    match decideEqAll s s' with
    | isTrue hs =>
      if h : n = n' ∧ p = p' ∧ e = e' ∧ i = i' ∧ j = j' then
        isTrue (by obtain ⟨rfl, rfl, rfl, rfl, rfl⟩ := h; rw [hs])
      else isFalse (by
        intro h'
        injection h' with h1 h2 h3 h4 _ h5
        exact h ⟨h1, h2, h3, h4, h5⟩)
    | isFalse hs => isFalse (by intro h'; injection h' with _ _ _ _ h5; exact hs h5)

def decideEqAll : (a b : List Node) → Decidable (a = b)
  | [], [] => isTrue rfl
  | [], _ :: _ => isFalse (by intro h; injection h)
  | _ :: _, [] => isFalse (by intro h; injection h)
  | a :: r, b :: t =>
    match decideEq a b, decideEqAll r t with
    | isTrue h, isTrue h' => isTrue (by rw [h, h'])
    | isFalse h, _ => isFalse (by intro h'; injection h' with h1 _; exact h h1)
    | _, isFalse h => isFalse (by intro h'; injection h' with _ h2; exact h h2)

end

instance : DecidableEq Node := decideEq

/-- A path extended by a name; the root's path is empty. -/
def extend (path name : String) : String :=
  if path.isEmpty then name else path ++ "." ++ name

/-- A section without a name, entries or children. -/
def root : Node := ⟨"", "", [], .empty, [], .empty⟩

/-- An empty section below a path. -/
def emptyBelow (path name : String) : Node := { root with name, path := extend path name }

def isEmpty (n : Node) : Bool := n.entries.isEmpty && n.sections.isEmpty

def hasKey (n : Node) (key : String) : Bool := (n.entryIndex.find? key).isSome

def hasSection (n : Node) (name : String) : Bool := (n.sectionIndex.find? name).isSome

/-- The name is taken, by an entry or by a child. -/
def hasName (n : Node) (name : String) : Bool := n.hasKey name || n.hasSection name

def value? (n : Node) (key : String) : Option String := do
  let place ← n.entryIndex.find? key
  return (← n.entries[place]?).2

def child? (n : Node) (name : String) : Option Node := do
  n.sections[← n.sectionIndex.find? name]?

mutual

/-- A node and all below it, parents first. -/
def preorder : Node → List Node
  | ⟨n, p, e, i, s, j⟩ => ⟨n, p, e, i, s, j⟩ :: preorderAll s

def preorderAll : List Node → List Node
  | [] => []
  | n :: rest => preorder n ++ preorderAll rest

end

/-! ## Building -/

def addEntry (n : Node) (key value : String) : Node :=
  { n with
    entries := n.entries ++ [(key, value)]
    entryIndex := n.entryIndex.insert key n.entries.length }

def addChild (n child : Node) : Node :=
  { n with
    sections := n.sections ++ [child]
    sectionIndex := n.sectionIndex.insert child.name n.sections.length }

/-- The child of a name, new if there is none. -/
def childOrNew (n : Node) (name : String) : Node := (n.child? name).getD (emptyBelow n.path name)

/-- Puts a child in the place of the one that has its name, or adds it at the end. -/
def setChild (n child : Node) : Node :=
  match n.sectionIndex.find? child.name with
  | some place => { n with sections := n.sections.set place child }
  | none => n.addChild child

/-- Changes the node at a list of names, creating what is missing on the way. -/
def modifyAt (f : Node → Node) : List String → Node → Node
  | [], n => f n
  | name :: names, n => n.setChild (modifyAt f names (n.childOrNew name))

/-- The node at a list of names, empty where there is none. -/
def nodeAt : List String → Node → Node
  | [], n => n
  | name :: names, n => nodeAt names (n.childOrNew name)

/-- Opens a section and all above it. An entry on the way bars it: its section and its key. -/
def openAt : List String → Node → Except (String × String) Node
  | [], n => .ok n
  | name :: names, n =>
    if n.hasKey name then .error (n.path, name)
    else do return n.setChild (← openAt names (n.childOrNew name))

mutual

/-- The same subtree below another path. -/
def rebase (path : String) : Node → Node
  | ⟨name, _, entries, entryIndex, sections, sectionIndex⟩ =>
    let path := extend path name
    ⟨name, path, entries, entryIndex, rebaseAll path sections, sectionIndex⟩

def rebaseAll (path : String) : List Node → List Node
  | [] => []
  | n :: rest => rebase path n :: rebaseAll path rest

end

/-- Adds an entry unless its name is taken. -/
def offerEntry (n : Node) (entry : String × String) : Node :=
  if n.hasName entry.1 then n else n.addEntry entry.1 entry.2

/-- Adds a child unless its name is taken; it comes as a whole or not at all. -/
def offerChild (n child : Node) : Node :=
  if n.hasName child.name then n else n.addChild (child.rebase n.path)

/-- Takes over from another node every name that this one does not define. -/
def fill (n included : Node) : Node :=
  included.sections.foldl offerChild (included.entries.foldl offerEntry n)

/-! ## Writing -/

mutual

/-- The lines that read back as this tree. -/
def lines : Node → List String
  | ⟨_, path, entries, _, sections, _⟩ =>
    (if path.isEmpty then [] else [s!"[{path}]"])
      ++ entries.map (fun (key, value) => s!"{key} = {value}") ++ linesAll sections

def linesAll : List Node → List String
  | [] => []
  | n :: rest => "" :: lines n ++ linesAll rest

end

/-- A tree in the grammar it is read from. -/
def dump (n : Node) : String := String.join (n.lines.map (· ++ "\n"))

end Node

end PacedNet.Config
