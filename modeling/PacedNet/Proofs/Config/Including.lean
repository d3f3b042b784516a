import PacedNet.Config.Library
import PacedNet.Proofs.Config.Filling
import PacedNet.Proofs.Config.Scanning

/-!
# What including makes of a source

A source is read on its own first; then its inclusions are followed in their order,
and each fills the section it stands in with the tree it leads to (`expand_eq_ok`).
Following goes on below a chain of keys with a depth to spare. A tree that came of
some depth comes of one more (`expand_succ`), which is why a text's inclusion leads
to the tree that `parseSource` gives for its name (`parseText_eq_ok`).

Every tree so made is rooted (`expand_rooted`).
-/

namespace PacedNet.Config

/-- The tree of a source with the trees of its inclusions merged into it, in their order. -/
def Scan.merge (s : Scan) (trees : List Node) : Node :=
  (s.inclusions.zip trees).foldl (fun root (i, tree) => root.modifyAt (·.fill tree) i.scope) s.root

namespace Library

/-- Follows an inclusion, unless its source is being read already. -/
def follow (l : Library) (n : Nat) (chain : List String) (directory : Option (List UInt8))
    (name : String) : Except ConfigError Node := do
  let found ← l.locate name directory
  if chain.contains found.key then
    .error (.inclusion found.name (.cycle (chain ++ [found.key])))
  else l.expand n (chain ++ [found.key]) found

/-- Follows inclusions in their order, and merges each tree where its inclusion stands. -/
def followAll (l : Library) (n : Nat) (chain : List String) (directory : Option (List UInt8))
    (root : Node) (is : List Inclusion) : Except ConfigError Node :=
  is.foldlM (fun root i => do
    return root.modifyAt (·.fill (← l.follow n chain directory i.name)) i.scope) root

theorem followAll_cons (l : Library) (n : Nat) (chain : List String) (directory : Option (List UInt8))
    (root : Node) (i : Inclusion) (rest : List Inclusion) :
    l.followAll n chain directory root (i :: rest) = (do
      let tree ← l.follow n chain directory i.name
      l.followAll n chain directory (root.modifyAt (·.fill tree) i.scope) rest) := by
  unfold followAll
  rw [List.foldlM_cons, bind_assoc]
  rfl

variable {l : Library} {n : Nat} {chain : List String} {directory : Option (List UInt8)}
  {source : Located} {name text : String} {root tree : Node}

theorem follow_eq_ok : l.follow n chain directory name = .ok tree
    ↔ ∃ found, l.locate name directory = .ok found ∧ found.key ∉ chain
        ∧ l.expand n (chain ++ [found.key]) found = .ok tree := by
  unfold follow
  cases l.locate name directory with
  | error e => simp [bind, Except.bind]
  | ok found =>
      by_cases hc : found.key ∈ chain
      · simp [bind, Except.bind, hc]
      · simp [bind, Except.bind, hc]

theorem eq_ok_of_toOption {ε α : Type} {x : Except ε α} {a : α} (h : x.toOption = some a) :
    x = .ok a := by
  cases x with
  | error e => exact absurd h (by simp [Except.toOption])
  | ok b => rw [Option.some.inj h]

/-- A fold that computes something of each element does so for all of them. -/
theorem foldlM_eq_ok {ε α β σ : Type} {g : α → Except ε β} {f : σ → α → β → σ} {as : List α}
    {s t : σ} :
    as.foldlM (fun s a => do return f s a (← g a)) s = (.ok t : Except ε σ)
      ↔ ∃ bs, List.Forall₂ (fun a b => g a = .ok b) as bs
          ∧ t = (as.zip bs).foldl (fun s p => f s p.1 p.2) s := by
  induction as generalizing s with
  | nil =>
      constructor
      · intro h
        injection h with h
        exact ⟨[], .nil, h.symm⟩
      · rintro ⟨bs, hbs, rfl⟩
        rfl
  | cons a rest ih =>
      rw [List.foldlM_cons]
      cases hg : g a with
      | error e =>
          constructor
          · intro h; exact absurd h (by simp [bind, Except.bind])
          · rintro ⟨bs, hbs, -⟩
            cases hbs with
            | cons hb _ => rw [hg] at hb; exact absurd hb (by simp)
      | ok b =>
          show rest.foldlM _ (f s a b) = (.ok t : Except ε σ) ↔ _
          rw [ih]
          constructor
          · rintro ⟨bs, hbs, rfl⟩
            exact ⟨b :: bs, .cons hg hbs, rfl⟩
          · rintro ⟨bs, hbs, rfl⟩
            cases hbs with
            | cons hb hrest =>
                rw [hg] at hb
                injection hb with hb
                subst hb
                exact ⟨_, hrest, rfl⟩

/-- A source is expanded by following its inclusions, in their order. -/
theorem expand_eq (l : Library) (n : Nat) (chain : List String) (source : Located) :
    l.expand (n + 1) chain source = (do
      let own ← scan source.name source.text
      l.followAll n chain source.directory own.root own.inclusions) := by
  rw [expand]
  refine bind_congr fun own => ?_
  -- one turn of the loop follows an inclusion and merges the tree that it leads to
  have hbody : (fun (root : Node) (inclusion : Inclusion) => do
        let found ← l.locate inclusion.name source.directory
        if chain.contains found.key then
          .error (.inclusion found.name (.cycle (chain ++ [found.key])))
        else
          let tree ← l.expand n (chain ++ [found.key]) found
          return root.modifyAt (·.fill tree) inclusion.scope)
      = fun root inclusion => do
          return root.modifyAt
            (·.fill (← l.follow n chain source.directory inclusion.name)) inclusion.scope := by
    funext root inclusion
    unfold follow
    cases l.locate inclusion.name source.directory with
    | error e => rfl
    | ok found =>
        show (if _ then _ else _) = _
        by_cases hc : found.key ∈ chain
        · simp [bind, Except.bind, hc]
        · simp [bind, Except.bind, hc]
  rw [hbody, followAll]

/-- **How a source is expanded.** -/
theorem expand_eq_ok : l.expand (n + 1) chain source = .ok root
    ↔ ∃ own trees, scan source.name source.text = .ok own
        ∧ List.Forall₂ (fun i tree => l.follow n chain source.directory i.name = .ok tree)
            own.inclusions trees
        ∧ root = own.merge trees := by
  rw [expand_eq]
  cases scan source.name source.text with
  | error e => simp [bind, Except.bind]
  | ok own =>
      show own.inclusions.foldlM _ own.root = (.ok root : Except ConfigError Node) ↔ _
      rw [foldlM_eq_ok (g := fun i : Inclusion => l.follow n chain source.directory i.name)
        (f := fun root i tree => Node.modifyAt (·.fill tree) i.scope root)]
      simp [Scan.merge]

/-! ## Depth -/

theorem expand_succ (h : l.expand n chain source = .ok root) :
    l.expand (n + 1) chain source = .ok root := by
  induction n generalizing chain source root with
  | zero => exact absurd h (by simp [expand])
  | succ n ih =>
      obtain ⟨own, trees, hown, htrees, rfl⟩ := expand_eq_ok.mp h
      refine expand_eq_ok.mpr ⟨own, trees, hown, htrees.imp fun i tree htree => ?_, rfl⟩
      obtain ⟨found, hfound, hnew, htree⟩ := follow_eq_ok.mp htree
      exact follow_eq_ok.mpr ⟨found, hfound, hnew, ih htree⟩

/-- **How a text is read**: its inclusions lead to the trees that `parseSource` gives for them. -/
theorem parseText_eq_ok (h : l.parseText text = .ok root) :
    ∃ own trees, scan "<string>" text = .ok own
      ∧ List.Forall₂ (fun i tree => l.parseSource i.name = .ok tree) own.inclusions trees
      ∧ root = own.merge trees := by
  obtain ⟨own, trees, hown, htrees, hroot⟩ := expand_eq_ok.mp h
  refine ⟨own, trees, hown, htrees.imp fun i tree htree => ?_, hroot⟩
  obtain ⟨found, hfound, -, htree⟩ := follow_eq_ok.mp htree
  unfold parseSource
  rw [hfound]
  exact expand_succ htree

/-! ## Soundness -/

/-- One merged tree keeps a rooted tree rooted, and all its sections in place. -/
theorem rooted_fillAt {scope : List String} (h : root.Rooted) (hscope : root.Holds scope)
    (ht : tree.Sound) :
    (root.modifyAt (·.fill tree) scope).Rooted
      ∧ ∀ ps, root.Holds ps → (root.modifyAt (·.fill tree) scope).Holds ps := by
  obtain ⟨p, hp⟩ := hscope
  have hps := h.sound.at? hp
  refine ⟨⟨?_, ?_, ?_⟩, fun ps => ?_⟩
  · exact Node.sound_modifyAt h.sound (Node.name_fill · tree) (Node.path_fill · tree) hp
      (Node.fill_spec hps ht).1
  · rw [Node.name_modifyAt (Node.name_fill · tree), h.name]
  · rw [Node.path_modifyAt (Node.path_fill · tree), h.path]
  · exact Scan.holds_modifyAt h.sound (Node.name_fill · tree) hp
      fun x c hc => Node.child?_fill hps ht hc

/-- Merging sound trees into sections that are there leaves a rooted tree. -/
theorem rooted_foldl {todo : List (Inclusion × Node)} (h : root.Rooted)
    (htodo : ∀ p ∈ todo, root.Holds p.1.scope ∧ p.2.Sound) :
    (todo.foldl (fun root (i, tree) => root.modifyAt (·.fill tree) i.scope) root).Rooted := by
  induction todo generalizing root with
  | nil => exact h
  | cons p rest ih =>
      obtain ⟨hscope, htree⟩ := htodo p List.mem_cons_self
      obtain ⟨hroot, hstay⟩ := rooted_fillAt h hscope htree
      refine ih hroot fun q hq => ?_
      obtain ⟨hq1, hq2⟩ := htodo q (List.mem_cons_of_mem _ hq)
      exact ⟨hstay _ hq1, hq2⟩

/-- **Every expanded source is rooted.** -/
theorem expand_rooted (h : l.expand n chain source = .ok root) : root.Rooted := by
  induction n generalizing chain source root with
  | zero => exact absurd h (by simp [expand])
  | succ n ih =>
      obtain ⟨own, trees, hown, htrees, rfl⟩ := expand_eq_ok.mp h
      have hs := scan_sound hown
      refine rooted_foldl hs.rooted fun p hp => ⟨hs.scopes _ (List.of_mem_zip hp).1, ?_⟩
      have htree := (List.forall₂_iff_zip.mp htrees).2 hp
      obtain ⟨found, -, -, htree⟩ := follow_eq_ok.mp htree
      exact (ih htree).sound

theorem parseSource_eq_ok (h : l.parseSource name = .ok root) :
    ∃ source, l.locate name none = .ok source ∧ l.expand l.depth [source.key] source = .ok root := by
  unfold parseSource at h
  cases hfound : l.locate name none with
  | error e => rw [hfound] at h; exact absurd h (by simp [bind, Except.bind])
  | ok source => rw [hfound] at h; exact ⟨source, rfl, h⟩

theorem parseText_rooted (h : l.parseText text = .ok root) : root.Rooted := expand_rooted h

theorem parseSource_rooted (h : l.parseSource name = .ok root) : root.Rooted := by
  obtain ⟨source, -, h⟩ := parseSource_eq_ok h
  exact expand_rooted h

theorem parseFile_rooted {path : List UInt8} (h : l.parseFile path = .ok root) : root.Rooted := by
  unfold parseFile at h
  split at h
  · exact absurd h (by simp)
  · exact expand_rooted h

end Library

end PacedNet.Config
