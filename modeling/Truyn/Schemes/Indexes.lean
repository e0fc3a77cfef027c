import Truyn.Schemes.Maps

/-! scheme:indexes | a map of items, and an index of its keys by what the items are

    The index keeps, for each value that `f` takes, the keys of the items with that value. Adding a
    key and removing one keep the index in step with the map, so what is looked up through the index
    is what a scan of the whole map finds. -/

namespace Indexes

variable {κ ι α : Type*} [DecidableEq κ] [DecidableEq ι] {f : α → κ} {m : List (ι × α)}
  {ix : List (κ × List ι)} {i j : ι} {k l : κ} {a b : α}

def members (ix : List (κ × List ι)) (k : κ) : List ι := (Maps.get ix k).getD []

def add (k : κ) (i : ι) (ix : List (κ × List ι)) : List (κ × List ι) :=
  Maps.set k (if i ∈ members ix k then members ix k else members ix k ++ [i]) ix

/-- A value that no key is left for is dropped. -/
def remove (k : κ) (i : ι) (ix : List (κ × List ι)) : List (κ × List ι) :=
  match Maps.get ix k with
  | none => ix
  | some keys =>
    let rest := keys.filter fun j => j ≠ i
    if rest = [] then Maps.delete k ix else Maps.set k rest ix

def lookup (m : List (ι × α)) (ix : List (κ × List ι)) (k : κ) : List α :=
  (members ix k).filterMap (Maps.get m)

theorem members_add : members (add k i ix) l =
    if k = l then if i ∈ members ix k then members ix k else members ix k ++ [i]
    else members ix l := by
  by_cases h : k = l
  · subst h
    simp [members, add]
  · simp [members, add, Maps.get_set_ne h, h]

theorem members_remove : members (remove k i ix) l =
    if k = l then (members ix k).filter (fun j => j ≠ i) else members ix l := by
  cases hget : Maps.get ix k with
  | none =>
    by_cases h : k = l
    · subst h
      simp [members, remove, hget]
    · simp [remove, hget, h]
  | some keys =>
    simp only [remove, hget]
    by_cases h : k = l
    · subst h
      split
      · next hrest =>
        have hkeys : (Maps.get ix k).getD [] = keys := by rw [hget]; rfl
        simp only [members, Maps.get_delete, hkeys, hrest, if_true, Option.getD_none]
      · simp [members, hget]
    · rw [if_neg h]
      split
      · simp [members, Maps.get_delete_ne h]
      · simp [members, Maps.get_set_ne h]

/-- The index has the keys of the items with each value, once each. -/
structure Indexed (m : List (ι × α)) (f : α → κ) (ix : List (κ × List ι)) : Prop where
  keys : (m.map Prod.fst).Nodup
  nodup : ∀ k, (members ix k).Nodup
  mem : ∀ k i, i ∈ members ix k ↔ ∃ a, Maps.get m i = some a ∧ f a = k

theorem Indexed.empty : Indexed ([] : List (ι × α)) f [] where
  keys := List.nodup_nil
  nodup _ := List.nodup_nil
  mem _ _ := by simp [members]

theorem Indexed.remove (h : Indexed m f ix) (hget : Maps.get m i = some a) :
    Indexed (Maps.delete i m) f (remove (f a) i ix) where
  keys := Maps.nodup_delete h.keys
  nodup k := by
    rw [members_remove]
    split
    · exact (h.nodup _).filter _
    · exact h.nodup k
  mem k j := by
    rw [members_remove, Maps.get_delete]
    by_cases hj : i = j
    · subst hj
      by_cases hk : f a = k
      · simp [hk]
      · simp [hk, h.mem, hget]
    · have hji : j ≠ i := fun heq => hj heq.symm
      by_cases hk : f a = k
      · simp [hk, hj, hji, h.mem]
      · simp [hk, hj, h.mem]

theorem Indexed.delete (h : Indexed m f ix) (hget : Maps.get m i = none) :
    Indexed (Maps.delete i m) f ix := by rwa [Maps.delete_of_get hget]

/-- A key is added after what it stood for was removed. -/
theorem Indexed.add (h : Indexed (Maps.delete i m) f ix) (hm : (m.map Prod.fst).Nodup) :
    Indexed (Maps.set i a m) f (add (f a) i ix) where
  keys := Maps.nodup_set hm
  nodup k := by
    rw [members_add]
    split
    · split
      · exact h.nodup _
      · next hmem => exact List.nodup_append.mpr ⟨h.nodup _, List.nodup_singleton i, by
          rintro x hx y hy rfl
          exact hmem (List.mem_singleton.mp hy ▸ hx)⟩
    · exact h.nodup k
  mem k j := by
    have hgone : ∀ l, i ∉ members ix l := by simp [h.mem, Maps.get_delete]
    have hold := h.mem k j
    rw [members_add, Maps.get_set]
    rw [Maps.get_delete] at hold
    by_cases hj : i = j
    · subst hj
      by_cases hk : f a = k
      · simp [hk, hgone]
      · simp [hk, hgone]
    · have hji : j ≠ i := fun heq => hj heq.symm
      by_cases hk : f a = k
      · simp [hk, hj, hji, hgone] at hold ⊢
        exact hold
      · simp [hk, hj] at hold ⊢
        exact hold

/-- An item is replaced by one with the same value. -/
theorem Indexed.update (h : Indexed m f ix) (hget : Maps.get m i = some a) (hf : f b = f a) :
    Indexed (Maps.set i b m) f ix where
  keys := Maps.nodup_set h.keys
  nodup := h.nodup
  mem k j := by
    rw [h.mem, Maps.get_set]
    by_cases hj : i = j
    · subst hj
      simp [hget, hf]
    · simp [hj]

/-- The index finds what a scan finds, each item as often. -/
theorem lookup_perm (h : Indexed m f ix) :
    (lookup m ix k).Perm ((m.map Prod.snd).filter fun a => f a = k) := by
  have hkeys : (members ix k).Perm ((m.filter fun p => f p.2 = k).map Prod.fst) := by
    refine (List.perm_ext_iff_of_nodup (h.nodup k) (Maps.nodup_filter h.keys)).mpr fun i => ?_
    simp only [h.mem, List.mem_map, List.mem_filter, decide_eq_true_eq]
    constructor
    · rintro ⟨a, ha, hk⟩
      exact ⟨(i, a), ⟨Maps.mem_of_get ha, hk⟩, rfl⟩
    · rintro ⟨⟨j, a⟩, ⟨ha, hk⟩, rfl⟩
      exact ⟨a, Maps.get_of_mem h.keys ha, hk⟩
  have hitems : ((m.filter fun p => f p.2 = k).map Prod.fst).filterMap (Maps.get m) =
      (m.map Prod.snd).filter fun a => f a = k := by
    have hget : ∀ p ∈ m.filter fun p => f p.2 = k, Maps.get m p.1 = some p.2 := fun p hp =>
      Maps.get_of_mem h.keys (List.mem_of_mem_filter hp)
    have hsome : (m.filter fun p => f p.2 = k).filterMap (Maps.get m ∘ Prod.fst) =
        (m.filter fun p => f p.2 = k).filterMap (some ∘ Prod.snd) := List.filterMap_congr hget
    rw [List.filterMap_map, hsome, List.filterMap_eq_map, List.filter_map]
    rfl
  exact hitems ▸ hkeys.filterMap _

end Indexes
