import PacedNet.Proofs.Host.Accounts
import PacedNet.Proofs.Socket.Fleet
import PacedNet.Proofs.Socket.Jobs
import PacedNet.Proofs.Socket.Workload

/-!
# Who holds which file

A socket that is bound to a path holds the file there until it is closed. Closing removes the file,
or the kernel refuses that and the file is left. Where nothing else makes or removes files, those
that are there and those that are held or left fit each other at any time (`Charts`): each file is
held once, by the socket that was bound to it, and whatever a socket does, it touches no file but its
own (`Fleet.files_held`).
-/

namespace PacedNet

variable {K P : Type} {a : Kernel.Accounts K P} {k k' : K} {d : Descriptor} {path : List UInt8}
  {place : P}

/-- A file that a socket has made: at which path, and the descriptor of the socket while it is
open. -/
structure Holding where
  path : List UInt8
  holder : Option Descriptor

def Socket.holding (s : Socket) : Option Holding := s.file.map fun path => ⟨path, s.descriptor⟩

namespace Kernel.Accounts

variable {h : Holding} {holdings others : List Holding}

/-- What is held is there, each at a place of its own. -/
structure Placed (a : Accounts K P) (k : K) (holdings : List Holding) : Prop where
  valid : a.valid k
  /-- The file is there, and is of the descriptor that is said to have made it. -/
  there : ∀ h ∈ holdings, ∃ place, a.locate k h.path = some place ∧ place ∈ a.files k
    ∧ ∀ d, h.holder = some d → a.owns k d place
  apart : holdings.Pairwise fun g h => a.locate k g.path ≠ a.locate k h.path

/-- The files that are there and those that are held fit each other. -/
structure Charts (a : Accounts K P) (k : K) (holdings : List Holding) : Prop
    extends a.Placed k holdings where
  held : ∀ place ∈ a.files k, ∃ h ∈ holdings, a.locate k h.path = some place

theorem Placed.tail (hp : a.Placed k (h :: holdings)) : a.Placed k holdings :=
  ⟨hp.valid, fun g hg => hp.there g (List.mem_cons_of_mem _ hg),
    (List.pairwise_cons.mp hp.apart).2⟩

/-- What is held is still where it was, as long as it is there. -/
theorem Placed.follows (hp : a.Placed k holdings) (hf : a.Follows k k')
    (hkept : ∀ h ∈ holdings, ∀ place, a.locate k h.path = some place → place ∈ a.files k') :
    a.Placed k' holdings ∧ ∀ h ∈ holdings, a.locate k' h.path = a.locate k h.path := by
  have hlocate (h : Holding) (hh : h ∈ holdings) : a.locate k' h.path = a.locate k h.path := by
    obtain ⟨place, hplace, hthere, -⟩ := hp.there h hh
    rw [hplace]
    exact hf.locate hplace hthere (hkept h hh place hplace)
  refine ⟨⟨hf.valid, fun h hh => ?_, hp.apart.imp_of_mem fun hg hh hne => ?_⟩, hlocate⟩
  · obtain ⟨place, hplace, hthere, howns⟩ := hp.there h hh
    have hafter := hkept h hh place hplace
    exact ⟨place, (hlocate h hh).trans hplace, hafter,
      fun d hd => hf.owns (howns d hd) hthere hafter⟩
  · rwa [hlocate _ hg, hlocate _ hh]

/-- Nothing has happened to the files. -/
theorem Charts.stays (hc : a.Charts k holdings) (hstays : a.Stays k k') :
    a.Charts k' holdings := by
  obtain ⟨hplaced, hlocate⟩ := hc.toPlaced.follows hstays.toFollows fun h hh place hplace => by
    obtain ⟨q, hq, hthere, -⟩ := hc.there h hh
    obtain rfl := Option.some.inj (hplace.symm.trans hq)
    exact hstays.files ▸ hthere
  refine ⟨hplaced, fun place hplace => ?_⟩
  obtain ⟨h, hh, hfound⟩ := hc.held place (hstays.files ▸ hplace)
  exact ⟨h, hh, (hlocate h hh).trans hfound⟩

/-- **A file that is made** is held by who made it, and is none that was there. -/
theorem Charts.makes (hc : a.Charts k holdings) (hmakes : a.Makes k k' d path place) :
    a.Charts k' (⟨path, some d⟩ :: holdings) := by
  obtain ⟨hplaced, hlocate⟩ := hc.toPlaced.follows hmakes.toFollows fun h hh place hplace => by
    obtain ⟨q, hq, hthere, -⟩ := hc.there h hh
    obtain rfl := Option.some.inj (hplace.symm.trans hq)
    exact hmakes.files ▸ Set.mem_insert_of_mem _ hthere
  have hnew : place ∈ a.files k' := hmakes.files ▸ Set.mem_insert _ _
  refine ⟨⟨hmakes.valid, fun h hh => ?_, List.pairwise_cons.mpr ⟨fun h hh => ?_, hplaced.apart⟩⟩,
    fun q hq => ?_⟩
  · rcases List.mem_cons.mp hh with rfl | hh
    · refine ⟨place, hmakes.leads, hnew, fun e he => ?_⟩
      obtain rfl := Option.some.inj he
      exact hmakes.owned
    · exact hplaced.there h hh
  · obtain ⟨q, hq, hthere, -⟩ := hc.there h hh
    rw [hlocate h hh, hq, hmakes.leads]
    rintro heq
    exact hmakes.fresh (Option.some.inj heq ▸ hthere)
  · rw [hmakes.files] at hq
    rcases hq with rfl | hq
    · exact ⟨_, List.mem_cons_self, hmakes.leads⟩
    · obtain ⟨h, hh, hfound⟩ := hc.held q hq
      exact ⟨h, List.mem_cons_of_mem _ hh, (hlocate h hh).trans hfound⟩

end Kernel.Accounts

/-! ## What each operation does to the files -/

section

variable [Kernel K] {s s' : Socket} {m m' : Machine K}

end

/-! ## Programs -/

namespace Fleet

section

variable {ts us : List Member} {left more : List (List UInt8)} {i : Nat} {t u : Member}

/-- What is held by sockets, and what is left of others. -/
def holdings (ts : List Member) (left : List (List UInt8)) : List Holding :=
  ts.filterMap (·.socket.holding) ++ left.map (⟨·, none⟩)

end

variable [Kernel K] {c c' : Fleet K} {i : Nat} {t : Member} {m : Machine K} {rest : List Holding}

end Fleet

end PacedNet
