import Mathlib

/-! scheme:families | items grouped by the labels they share

    Two items are near when they have a label in common, and linked when a chain of items, each near
    the next, leads from one to the other. `families` are the classes of linked items. Items that
    all share one label are at most one family, so adding them adds at most one family of any kind
    (`families_add_le`). -/

namespace Truyn.Families
open Relation

variable {α τ : Type*} (labels : α → List τ)

/-- Two of the items have a label in common. -/
def Near (L : Multiset α) (x y : α) : Prop := x ∈ L ∧ y ∈ L ∧ ∃ t, t ∈ labels x ∧ t ∈ labels y

def Linked (L : Multiset α) : α → α → Prop := ReflTransGen (Near labels L)

open Classical in
/-- The items linked to `x`. -/
noncomputable def family (L : Multiset α) (x : α) : Multiset α := L.filter (Linked labels L x)

open Classical in
noncomputable def families (L : Multiset α) : Finset (Multiset α) :=
  L.toFinset.image (family labels L)

variable {labels} {L A B : Multiset α} {x y z : α} {t : τ}

theorem Near.symm (h : Near labels L x y) : Near labels L y x :=
  ⟨h.2.1, h.1, h.2.2.imp fun _ ht => ⟨ht.2, ht.1⟩⟩

theorem Linked.symm (h : Linked labels L x y) : Linked labels L y x := by
  induction h with
  | refl => exact .refl
  | tail _ hn ih => exact .head hn.symm ih

theorem Linked.mem (h : Linked labels L x y) (hx : x ∈ L) : y ∈ L := by
  cases h with
  | refl => exact hx
  | tail _ hn => exact hn.2.1

theorem mem_family : y ∈ family labels L x ↔ y ∈ L ∧ Linked labels L x y := by
  simp [family]

theorem mem_families {c : Multiset α} :
    c ∈ families labels L ↔ ∃ x ∈ L, family labels L x = c := by
  simp [families]

open Classical in
theorem family_eq (h : Linked labels L x y) : family labels L x = family labels L y :=
  Multiset.filter_congr fun _ _ => ⟨fun hz => h.symm.trans hz, fun hz => h.trans hz⟩

/-- A chain of items that never meets `B` is a chain without `B`. -/
theorem Linked.avoid (h : Linked labels (A + B) x y)
    (hfar : ∀ b ∈ B, ¬Linked labels (A + B) x b) : Linked labels A x y := by
  induction h with
  | refl => exact .refl
  | @tail u v hu hn ih =>
    have hin : ∀ {w}, w ∈ A + B → Linked labels (A + B) x w → w ∈ A := by
      intro w hw hlink
      rcases Multiset.mem_add.mp hw with hw | hw
      · exact hw
      · exact absurd hlink (hfar w hw)
    exact ih.tail ⟨hin hn.1 hu, hin hn.2.1 (hu.tail hn), hn.2.2⟩

theorem Linked.grow (h : Linked labels A x y) : Linked labels (A + B) x y := by
  induction h with
  | refl => exact .refl
  | tail _ hn ih =>
    exact ih.tail ⟨Multiset.mem_add.mpr (.inl hn.1), Multiset.mem_add.mpr (.inl hn.2.1), hn.2.2⟩

open Classical in
/-- A family that none of `B` belongs to was one before. -/
theorem family_avoid (hfar : ∀ b ∈ B, ¬Linked labels (A + B) x b) :
    family labels (A + B) x = family labels A x := by
  have hB : B.filter (Linked labels (A + B) x) = 0 :=
    Multiset.filter_eq_nil.mpr fun b hb => hfar b hb
  rw [family, Multiset.filter_add, hB, add_zero]
  exact Multiset.filter_congr fun y _ => ⟨fun h => h.avoid hfar, fun h => h.grow⟩

/-- ONE FAMILY: items that share one label add at most one family of any kind. -/
theorem families_add_le (P : Multiset α → Prop) [DecidablePred P] (hB : ∀ b ∈ B, t ∈ labels b) :
    ((families labels (A + B)).filter P).card ≤ ((families labels A).filter P).card + 1 := by
  classical
  rcases B.empty_or_exists_mem with rfl | ⟨b, hb⟩
  · rw [add_zero]
    exact Nat.le_succ _
  have hsub : (families labels (A + B)).filter P ⊆
      insert (family labels (A + B) b) ((families labels A).filter P) := by
    intro c hc
    obtain ⟨hc, hP⟩ := Finset.mem_filter.mp hc
    obtain ⟨x, hx, rfl⟩ := mem_families.mp hc
    by_cases hlink : Linked labels (A + B) x b
    · rw [family_eq hlink]
      exact Finset.mem_insert_self _ _
    · have hfar : ∀ b' ∈ B, ¬Linked labels (A + B) x b' := by
        intro b' hb' h
        exact hlink (h.tail ⟨Multiset.mem_add.mpr (.inr hb'), Multiset.mem_add.mpr (.inr hb),
          t, hB b' hb', hB b hb⟩)
      have hxA : x ∈ A := by
        rcases Multiset.mem_add.mp hx with hx | hx
        · exact hx
        · exact absurd .refl (hfar x hx)
      rw [family_avoid hfar] at hP ⊢
      exact Finset.mem_insert_of_mem (Finset.mem_filter.mpr ⟨mem_families.mpr ⟨x, hxA, rfl⟩, hP⟩)
  exact (Finset.card_le_card hsub).trans (Finset.card_insert_le _ _)

end Truyn.Families
