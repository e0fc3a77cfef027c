import Mathlib

/-! scheme:custody | items that are taken in, and what becomes of each

    An item that was taken is held, until it is given out or lost; a lost item is marked with whether
    it deserved to be given. The books balance where each item is in one of these places, as often as
    it was taken. -/

namespace Custody

variable {ε : Type*} {held rest items : List ε} {marked : List (ε × Bool)}

structure Books (ε : Type*) where
  taken : List ε := []
  given : List ε := []
  lost : List (ε × Bool) := []

variable {b : Books ε}

namespace Books

def take (items : List ε) (b : Books ε) : Books ε := { b with taken := b.taken ++ items }

def give (items : List ε) (b : Books ε) : Books ε := { b with given := b.given ++ items }

def lose (marked : List (ε × Bool)) (b : Books ε) : Books ε := { b with lost := b.lost ++ marked }

end Books

/-- The items, each with whether it deserves to be given. -/
def mark (deserves : ε → Bool) (items : List ε) : List (ε × Bool) :=
  items.map fun e => (e, deserves e)

@[simp] theorem map_fst_mark (deserves : ε → Bool) (items : List ε) :
    (mark deserves items).map Prod.fst = items := by
  simp [mark, Function.comp_def]

/-- What was taken is what was given, is held, and was lost. -/
def Balanced (b : Books ε) (held : List ε) : Prop :=
  (b.given ++ held ++ b.lost.map Prod.fst).Perm b.taken

theorem balanced_empty : Balanced ({} : Books ε) [] := .nil

theorem Balanced.perm (h : Balanced b held) (hperm : held.Perm rest) : Balanced b rest :=
  ((hperm.symm.append_left _).append_right _).trans h

theorem Balanced.take (h : Balanced b held) : Balanced (b.take items) (held ++ items) := by
  have hmove : (b.given ++ (held ++ items) ++ b.lost.map Prod.fst).Perm
      (b.given ++ held ++ b.lost.map Prod.fst ++ items) := by
    rw [← Multiset.coe_eq_coe]
    simp only [← Multiset.coe_add]
    abel
  exact hmove.trans (h.append_right items)

theorem Balanced.give (h : Balanced b (items ++ rest)) : Balanced (b.give items) rest := by
  simpa [Balanced, Books.give, List.append_assoc] using h

theorem Balanced.lose (h : Balanced b (marked.map Prod.fst ++ rest)) :
    Balanced (b.lose marked) rest := by
  have hmove : (b.given ++ rest ++ (b.lost ++ marked).map Prod.fst).Perm
      (b.given ++ (marked.map Prod.fst ++ rest) ++ b.lost.map Prod.fst) := by
    rw [← Multiset.coe_eq_coe, List.map_append]
    simp only [← Multiset.coe_add]
    abel
  exact hmove.trans h

/-- Every item that was taken is given once or still held, unless it did not deserve to be given. -/
structure Kept (b : Books ε) (held : List ε) : Prop where
  balanced : Balanced b held
  undeserving : ∀ p ∈ b.lost, p.2 = false

theorem kept_empty : Kept ({} : Books ε) [] := ⟨balanced_empty, fun _ h => (by cases h)⟩

theorem Kept.perm (h : Kept b held) (hperm : held.Perm rest) : Kept b rest :=
  ⟨h.balanced.perm hperm, h.undeserving⟩

theorem Kept.take (h : Kept b held) : Kept (b.take items) (held ++ items) :=
  ⟨h.balanced.take, h.undeserving⟩

theorem Kept.give (h : Kept b (items ++ rest)) : Kept (b.give items) rest :=
  ⟨h.balanced.give, h.undeserving⟩

theorem Kept.lose (h : Kept b (marked.map Prod.fst ++ rest)) (hmarked : ∀ p ∈ marked, p.2 = false) :
    Kept (b.lose marked) rest where
  balanced := h.balanced.lose
  undeserving p hp := (List.mem_append.mp hp).elim (h.undeserving p) (hmarked p)

end Custody
