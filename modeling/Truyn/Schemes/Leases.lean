import Mathlib

/-! scheme:leases | a count of the leases on each resource, and who holds them

    Each holder holds a resource or not. `Counted` says that the count of a resource is the number of
    its holders; it is kept by whoever changes the count as much as his own holding, and a count of
    zero means that nobody holds. -/

namespace Leases

variable {α κ : Type*} {holds : α → κ → Bool} {holders : List α} {count count' : κ → ℕ}

def Counted (holds : α → κ → Bool) (holders : List α) (count : κ → ℕ) : Prop :=
  ∀ k, count k = holders.countP fun a => holds a k

theorem Counted.nil : Counted holds [] fun _ => 0 := fun _ => rfl

/-- Nobody holds what is counted zero. -/
theorem Counted.free (h : Counted holds holders count) {k : κ} (hk : count k = 0) :
    ∀ a ∈ holders, holds a k = false := by
  intro a ha
  rw [h k, List.countP_eq_zero] at hk
  simpa using hk a ha

/-- A holder is counted. -/
theorem Counted.pos (h : Counted holds holders count) {a : α} {k : κ} (ha : a ∈ holders)
    (hk : holds a k = true) : 0 < count k := by
  rw [h k]
  exact List.countP_pos_iff.mpr ⟨a, ha, hk⟩

theorem countP_set {p : α → Bool} {i : ℕ} {a b : α} (hi : holders[i]? = some a) :
    (holders.set i b).countP p + (p a).toNat = holders.countP p + (p b).toNat := by
  obtain ⟨hlt, rfl⟩ := List.getElem_of_getElem? hi
  have hpos : p holders[i] = true → 0 < holders.countP p := fun hp =>
    List.countP_pos_iff.mpr ⟨_, List.getElem_mem hlt, hp⟩
  rw [List.countP_set hlt]
  cases hold : p holders[i] <;> cases hnew : p b <;> simp_all

/-- One more holder, with what it holds. -/
theorem Counted.push (h : Counted holds holders count) {a : α}
    (hcount : ∀ k, count' k = count k + (holds a k).toNat) :
    Counted holds (holders ++ [a]) count' := by
  intro k
  rw [hcount k, h k, List.countP_append]
  cases hk : holds a k <;> simp [hk]

/-- One more holder, who holds nothing yet. -/
theorem Counted.concat (h : Counted holds holders count) {a : α} (ha : ∀ k, holds a k = false) :
    Counted holds (holders ++ [a]) count := h.push fun k => by simp [ha k]

/-- One holder takes and gives back, and the count follows him. -/
theorem Counted.set (h : Counted holds holders count) {i : ℕ} {a b : α}
    (hi : holders[i]? = some a)
    (hcount : ∀ k, count' k + (holds a k).toNat = count k + (holds b k).toNat) :
    Counted holds (holders.set i b) count' := by
  intro k
  have hk := hcount k
  have hset := countP_set (p := fun c => holds c k) (b := b) hi
  rw [h k] at hk
  omega

/-- Where each holds one resource at most, those who hold one are as many as the list that counts
    the resources. -/
theorem Counted.length [BEq κ] [LawfulBEq κ] {key : α → Option κ} {l : List κ}
    (h : Counted (fun a k => key a == some k) holders fun k => l.count k) :
    holders.countP (fun a => (key a).isSome) = l.length := by
  have hperm : (holders.filterMap key).Perm l := by
    refine List.perm_iff_count.mpr fun k => ?_
    have hk : l.count k = holders.countP fun a => key a == some k := h k
    rw [hk, List.count_filterMap]
  rw [← hperm.length_eq, List.length_filterMap_eq_countP]

end Leases
