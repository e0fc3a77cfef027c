import Mathlib

/-! scheme:maps | maps that remember the order in which keys were set

    A map is the list of its members. Setting a key that is there keeps its place. -/

namespace Maps

variable {κ α : Type*} [DecidableEq κ] {m : List (κ × α)} {k j : κ} {a b : α}

def get (m : List (κ × α)) (k : κ) : Option α := (m.find? fun p => p.1 = k).map Prod.snd

def set (k : κ) (a : α) : List (κ × α) → List (κ × α)
  | [] => [(k, a)]
  | p :: m => if p.1 = k then (k, a) :: m else p :: set k a m

def delete (k : κ) (m : List (κ × α)) : List (κ × α) := m.filter fun p => p.1 ≠ k

@[simp] theorem get_nil : get ([] : List (κ × α)) k = none := rfl

theorem get_cons {p : κ × α} : get (p :: m) k = if p.1 = k then some p.2 else get m k := by
  by_cases h : p.1 = k <;> simp [get, h]

theorem get_set : get (set k a m) j = if k = j then some a else get m j := by
  induction m with
  | nil => simp [set, get_cons]
  | cons p m ih =>
    by_cases hp : p.1 = k
    · rw [set, if_pos hp, get_cons, get_cons]
      by_cases hj : k = j <;> simp [hj, hp]
    · rw [set, if_neg hp, get_cons, ih, get_cons]
      by_cases hj : k = j
      · subst hj
        simp [hp]
      · simp [hj]

@[simp] theorem get_set_self : get (set k a m) k = some a := by simp [get_set]

theorem get_set_ne (h : k ≠ j) : get (set k a m) j = get m j := by simp [get_set, h]

theorem get_delete : get (delete k m) j = if k = j then none else get m j := by
  induction m with
  | nil => simp [delete]
  | cons p m ih =>
    by_cases hp : p.1 = k
    · have hcons : delete k (p :: m) = delete k m := by simp [delete, hp]
      rw [hcons, ih, get_cons]
      by_cases hj : k = j <;> simp [hj, hp]
    · have hcons : delete k (p :: m) = p :: delete k m := by simp [delete, hp]
      rw [hcons, get_cons, ih, get_cons]
      by_cases hj : k = j
      · subst hj
        simp [hp]
      · simp [hj]

theorem get_delete_ne (h : k ≠ j) : get (delete k m) j = get m j := by simp [get_delete, h]

theorem isSome_get : (get m k).isSome = true ↔ k ∈ m.map Prod.fst := by
  simp only [get, Option.isSome_map, List.find?_isSome, decide_eq_true_eq, List.mem_map]

theorem mem_of_get (h : get m k = some a) : (k, a) ∈ m := by
  obtain ⟨p, hp, rfl⟩ := Option.map_eq_some_iff.mp h
  have hk : p.1 = k := by simpa using List.find?_some hp
  exact hk ▸ List.mem_of_find?_eq_some hp

theorem get_of_mem (hm : (m.map Prod.fst).Nodup) (h : (k, a) ∈ m) : get m k = some a := by
  induction m with
  | nil => cases h
  | cons p m ih =>
    rw [List.map_cons, List.nodup_cons] at hm
    rw [get_cons]
    rcases List.mem_cons.mp h with rfl | h
    · simp
    · have hp : p.1 ≠ k := fun hp => hm.1 (hp ▸ List.mem_map_of_mem h)
      rw [if_neg hp, ih hm.2 h]

omit [DecidableEq κ] in
theorem nodup_filter {p : κ × α → Bool} (hm : (m.map Prod.fst).Nodup) :
    ((m.filter p).map Prod.fst).Nodup :=
  hm.sublist (List.filter_sublist.map _)

theorem get_filter {p : κ × α → Bool} (hm : (m.map Prod.fst).Nodup) (h : get m k = some a)
    (hp : p (k, a)) : get (m.filter p) k = some a :=
  get_of_mem (nodup_filter hm) (List.mem_filter.mpr ⟨mem_of_get h, hp⟩)

theorem mem_set {p : κ × α} (h : p ∈ set k a m) : p = (k, a) ∨ p ∈ m := by
  induction m with
  | nil => exact .inl (by simpa [set] using h)
  | cons q m ih =>
    rw [set] at h
    split at h
    · exact (List.mem_cons.mp h).imp id (List.mem_cons_of_mem _)
    · rcases List.mem_cons.mp h with rfl | h
      · exact .inr List.mem_cons_self
      · exact (ih h).imp id (List.mem_cons_of_mem _)

theorem keys_set : (set k a m).map Prod.fst =
    if k ∈ m.map Prod.fst then m.map Prod.fst else m.map Prod.fst ++ [k] := by
  induction m with
  | nil => rfl
  | cons p m ih =>
    by_cases hp : p.1 = k
    · simp [set, hp]
    · rw [set, if_neg hp, List.map_cons, ih]
      have hne : k ≠ p.1 := fun h => hp h.symm
      by_cases hk : k ∈ m.map Prod.fst <;> simp_all

theorem nodup_set (hm : (m.map Prod.fst).Nodup) : ((set k a m).map Prod.fst).Nodup := by
  rw [keys_set]
  split
  · exact hm
  · next hk => exact List.nodup_append.mpr ⟨hm, List.nodup_singleton k, by
      rintro x hx y hy rfl
      exact hk (List.mem_singleton.mp hy ▸ hx)⟩

theorem length_set : (set k a m).length = if (get m k).isSome then m.length else m.length + 1 := by
  induction m with
  | nil => rfl
  | cons p m ih =>
    by_cases hp : p.1 = k
    · simp [set, get_cons, hp]
    · simp only [set, if_neg hp, List.length_cons, ih, get_cons]
      split <;> rfl

theorem length_delete_lt (h : get m k = some a) : (delete k m).length < m.length := by
  refine List.length_filter_lt_length_iff_exists.mpr ⟨(k, a), mem_of_get h, ?_⟩
  simp

theorem mem_set_self : (k, a) ∈ set k a m := mem_of_get get_set_self

/-- Members under other keys stay. -/
theorem mem_set_of_ne {p : κ × α} (hp : p ∈ m) (hne : p.1 ≠ k) : p ∈ set k a m := by
  induction m with
  | nil => cases hp
  | cons q m ih =>
    rw [set]
    split
    · next hq =>
      rcases List.mem_cons.mp hp with rfl | hp
      · exact absurd hq hne
      · exact List.mem_cons_of_mem _ hp
    · rcases List.mem_cons.mp hp with rfl | hp
      · exact List.mem_cons_self
      · exact List.mem_cons_of_mem _ (ih hp)

/-- With each key once, the other members have other keys. -/
theorem mem_set_or {p : κ × α} (hm : (m.map Prod.fst).Nodup) (h : p ∈ set k a m) :
    p = (k, a) ∨ p ∈ m ∧ p.1 ≠ k := by
  rcases mem_set h with heq | hp
  · exact .inl heq
  · by_cases hk : p.1 = k
    · have hget := get_of_mem (nodup_set hm) h
      rw [hk, get_set_self] at hget
      exact .inl (Prod.ext hk (Option.some.inj hget).symm)
    · exact .inr ⟨hp, hk⟩

/-- Members that neither the new nor the old value under the key is one of stay the same. -/
theorem filter_set {p : κ × α → Bool} (hnew : p (k, a) = false)
    (hold : ∀ b, (k, b) ∈ m → p (k, b) = false) : (set k a m).filter p = m.filter p := by
  induction m with
  | nil => simp [set, hnew]
  | cons q m ih =>
    rw [set]
    split
    · next hq =>
      obtain rfl : k = q.1 := hq.symm
      have hgone : p q = false := hold q.2 List.mem_cons_self
      simp [hnew, hgone]
    · have hrest := ih fun b hb => hold b (List.mem_cons_of_mem _ hb)
      simp [List.filter_cons, hrest]

theorem delete_of_get (h : get m k = none) : delete k m = m := by
  refine List.filter_eq_self.mpr fun p hp => ?_
  simpa using List.find?_eq_none.mp (Option.map_eq_none_iff.mp h) p hp

theorem delete_set (h : get m k = none) : delete k (set k a m) = m := by
  induction m with
  | nil => simp [set, delete]
  | cons p m ih =>
    rw [get_cons] at h
    split at h
    · cases h
    · next hp =>
      rw [set, if_neg hp, delete, List.filter_cons_of_pos (by simpa using hp)]
      exact congrArg (p :: ·) (ih h)

theorem get_filter_none {p : κ × α → Bool} (h : get m k = none) : get (m.filter p) k = none := by
  cases hget : get (m.filter p) k with
  | none => rfl
  | some a =>
    have hmem := List.mem_of_mem_filter (mem_of_get hget)
    have hne := List.find?_eq_none.mp (Option.map_eq_none_iff.mp h) _ hmem
    simp at hne

theorem mem_delete {p : κ × α} (h : p ∈ delete k m) : p ∈ m := List.mem_of_mem_filter h

theorem nodup_delete (hm : (m.map Prod.fst).Nodup) : ((delete k m).map Prod.fst).Nodup :=
  nodup_filter hm

end Maps
