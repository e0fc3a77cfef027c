import Mathlib

/-! scheme:recency | lists of items in the order of their last use

    Using an item moves it to the end, or adds it there. The list is ordered by `age`, how long ago
    the key of an item was last used: so its first item is the one that was not used for the longest
    time. -/

namespace Recency

variable {α κ : Type*} [DecidableEq κ] {key : α → κ} {l : List α} {x y : α} {k : κ}

/-- `l` after `x` was used: the item of its key, if any, is replaced by `x` at the end. -/
def use (key : α → κ) (x : α) (l : List α) : List α := l.eraseP (fun y => key y = key x) ++ [x]

theorem eraseP_key (hl : (l.map key).Nodup) :
    l.eraseP (fun y => key y = k) = l.filter fun y => key y ≠ k := by
  induction l with
  | nil => rfl
  | cons y l ih =>
    rw [List.map_cons, List.nodup_cons] at hl
    by_cases hy : key y = k
    · have hrest : l.filter (fun y => key y ≠ k) = l := by
        refine List.filter_eq_self.mpr fun z hz => ?_
        have hne : key z ≠ k := fun h => hl.1 ((hy.trans h.symm) ▸ List.mem_map_of_mem hz)
        simpa using hne
      simp only [ne_eq, decide_not] at hrest
      simp [hy, hrest]
    · simp [hy, ih hl.2]

theorem use_eq (hl : (l.map key).Nodup) :
    use key x l = l.filter (fun y => key y ≠ key x) ++ [x] := by rw [use, eraseP_key hl]

theorem mem_use (hl : (l.map key).Nodup) :
    y ∈ use key x l ↔ y = x ∨ y ∈ l ∧ key y ≠ key x := by
  rw [use_eq hl]
  simp [or_comm]

theorem nodup_use (hl : (l.map key).Nodup) : ((use key x l).map key).Nodup := by
  rw [use_eq hl, List.map_append, List.nodup_append]
  refine ⟨hl.sublist (List.filter_sublist.map key), List.nodup_singleton _, ?_⟩
  rintro a ha b hb rfl
  obtain ⟨y, hy, rfl⟩ := List.mem_map.mp ha
  have hne : key y ≠ key x := by simpa using (List.mem_filter.mp hy).2
  exact hne (by simpa using hb)

theorem use_of_notMem (hx : key x ∉ l.map key) : use key x l = l ++ [x] := by
  have hself : l.eraseP (fun y => key y = key x) = l := by
    refine List.eraseP_of_forall_not fun y hy => ?_
    simpa using fun h : key y = key x => hx (h ▸ List.mem_map_of_mem hy)
  rw [use, hself]

/-- A key that is not there makes the list longer by one. -/
theorem length_use (key : α → κ) (x : α) (l : List α) :
    (use key x l).length = if key x ∈ l.map key then l.length else l.length + 1 := by
  split
  · next hmem =>
    obtain ⟨y, hy, hkey⟩ := List.mem_map.mp hmem
    have hlength := List.length_eraseP_of_mem (p := fun y => key y = key x) hy (by simpa using hkey)
    have hpos := List.length_pos_of_mem hy
    simp only [use, List.length_append, hlength, List.length_singleton]
    omega
  · next hmem => simp [use_of_notMem hmem]

/-- Older items come first. -/
def Ordered (key : α → κ) (age : κ → ℕ) (l : List α) : Prop :=
  l.Pairwise fun a b => age (key b) < age (key a)

/-- The ages after a key was used, or after none was. -/
def tick (used : Option κ) (age : κ → ℕ) (k : κ) : ℕ := if used = some k then 0 else age k + 1

theorem Ordered.tick {age : κ → ℕ} {used : Option κ} (h : Ordered key age l)
    (hu : ∀ y ∈ l, used ≠ some (key y)) : Ordered key (tick used age) l := by
  refine List.Pairwise.imp_of_mem (fun {a b} ha hb hab => ?_) h
  rw [Recency.tick, Recency.tick, if_neg (hu a ha), if_neg (hu b hb)]
  omega

theorem Ordered.use {age : κ → ℕ} (h : Ordered key age l) (hl : (l.map key).Nodup) :
    Ordered key (Recency.tick (some (key x)) age) (use key x l) := by
  have hne : ∀ y ∈ l.filter (fun y => key y ≠ key x), some (key x) ≠ some (key y) := by
    intro y hy heq
    have hy' : key y ≠ key x := by simpa using (List.mem_filter.mp hy).2
    exact hy' (Option.some.inj heq).symm
  rw [use_eq hl, Ordered, List.pairwise_append]
  refine ⟨Ordered.tick (List.Pairwise.sublist List.filter_sublist h) hne, List.pairwise_singleton _ _, ?_⟩
  intro a ha b hb
  obtain rfl := List.mem_singleton.mp hb
  rw [Recency.tick, Recency.tick, if_pos rfl, if_neg (hne a ha)]
  omega

end Recency
