import Truyn.Js.Text

/-! js:sets | sets of strings, and the two orders that arrays of them are sorted by

    `new Set(list)` keeps the first of equal strings; `sort()` compares code units, so a sorted set
    does not depend on the order of its members. `localeCompare` compares as the host's language
    does: a `Collation` has the laws that every such comparison has, no more. -/

namespace Truyn

theorem nodup_eraseDups {α : Type*} [BEq α] [LawfulBEq α] (l : List α) : l.eraseDups.Nodup := by
  induction hn : l.length using Nat.strong_induction_on generalizing l with
  | _ n ih =>
    cases l with
    | nil => exact List.nodup_nil
    | cons a l =>
      rw [List.eraseDups_cons, List.nodup_cons]
      have hlt : (l.filter fun b => !b == a).length < n := by
        have := List.length_filter_le (fun b => !b == a) l
        rw [← hn, List.length_cons]
        omega
      exact ⟨by simp [List.mem_eraseDups], ih _ hlt _ rfl⟩

/-- `new Set(l)`. -/
def setOf (l : List JsString) : List JsString := l.eraseDups

theorem nodup_setOf (l : List JsString) : (setOf l).Nodup := nodup_eraseDups l

@[simp] theorem mem_setOf {x : JsString} {l : List JsString} : x ∈ setOf l ↔ x ∈ l :=
  List.mem_eraseDups

theorem setOf_perm {l l' : List JsString} (h : ∀ x, x ∈ l ↔ x ∈ l') : (setOf l).Perm (setOf l') :=
  (List.perm_ext_iff_of_nodup (nodup_setOf l) (nodup_setOf l')).mpr fun x => by simp [h x]

theorem setOf_eq_nil {l : List JsString} : setOf l = [] ↔ l = [] := by
  simp [List.eq_nil_iff_forall_not_mem]

/-! ### sort() -/

/-- The order of strings by their code units. -/
def unitsLe : JsString → JsString → Bool
  | [], _ => true
  | _ :: _, [] => false
  | a :: s, b :: t => a.toNat < b.toNat ∨ (a.toNat = b.toNat ∧ unitsLe s t)

theorem unitsLe_total (s t : JsString) : (unitsLe s t || unitsLe t s) = true := by
  induction s generalizing t with
  | nil => simp [unitsLe]
  | cons a s ih =>
    cases t with
    | nil => simp [unitsLe]
    | cons b t =>
      have ht := ih t
      simp only [unitsLe, Bool.or_eq_true, decide_eq_true_eq] at ht ⊢
      rcases Nat.lt_trichotomy a.toNat b.toNat with hlt | heq | hgt
      · exact .inl (.inl hlt)
      · exact ht.imp (fun h => .inr ⟨heq, h⟩) fun h => .inr ⟨heq.symm, h⟩
      · exact .inr (.inl hgt)

theorem unitsLe_trans (s t u : JsString) (h : unitsLe s t = true) (h' : unitsLe t u = true) :
    unitsLe s u = true := by
  induction s generalizing t u with
  | nil => simp [unitsLe]
  | cons a s ih =>
    cases t with
    | nil => cases h
    | cons b t =>
      cases u with
      | nil => cases h'
      | cons c u =>
        simp only [unitsLe, decide_eq_true_eq] at h h' ⊢
        rcases h with h | ⟨h, hs⟩
        · exact .inl (by omega)
        · rcases h' with h' | ⟨h', hs'⟩
          · exact .inl (by omega)
          · exact .inr ⟨by omega, ih t u hs hs'⟩

theorem unitsLe_antisymm (s t : JsString) (h : unitsLe s t = true) (h' : unitsLe t s = true) :
    s = t := by
  induction s generalizing t with
  | nil =>
    cases t with
    | nil => rfl
    | cons b t => cases h'
  | cons a s ih =>
    cases t with
    | nil => cases h
    | cons b t =>
      simp only [unitsLe, decide_eq_true_eq] at h h'
      rcases h with h | ⟨h, hs⟩ <;> rcases h' with h' | ⟨h', hs'⟩
      · omega
      · omega
      · omega
      · rw [UInt16.toNat_inj.mp h, ih t hs hs']

instance : IsTrans JsString fun s t => unitsLe s t = true := ⟨unitsLe_trans⟩

instance : Std.Total fun s t : JsString => unitsLe s t = true :=
  ⟨fun s t => by simpa using unitsLe_total s t⟩

/-- `l.sort()`. -/
def sortStrings (l : List JsString) : List JsString := l.insertionSort fun s t => unitsLe s t = true

theorem sortStrings_perm (l : List JsString) : (sortStrings l).Perm l := List.perm_insertionSort _ l

theorem sortStrings_eq {l l' : List JsString} (h : l.Perm l') : sortStrings l = sortStrings l' := by
  have hp : (sortStrings l).Perm (sortStrings l') :=
    (sortStrings_perm l).trans (h.trans (sortStrings_perm l').symm)
  have hs : ∀ m : List JsString, (sortStrings m).Pairwise fun a b => unitsLe a b = true := fun m =>
    List.pairwise_insertionSort _ m
  exact hp.eq_of_pairwise (fun a b _ _ hab hba => unitsLe_antisymm a b hab hba) (hs l) (hs l')

/-! ### localeCompare -/

/-- `a.localeCompare(b) <= 0`, in some language: a total preorder. -/
structure Collation where
  le : JsString → JsString → Bool
  trans : ∀ a b c, le a b = true → le b c = true → le a c = true
  total : ∀ a b, (le a b || le b a) = true

variable {α : Type*} {C : Collation} {key : α → JsString}

/-- `key(a).localeCompare(key(b)) <= 0`. -/
def Collation.by (C : Collation) (key : α → JsString) (a b : α) : Prop :=
  C.le (key a) (key b) = true

instance : DecidableRel (C.by key) := fun a b =>
  inferInstanceAs (Decidable (C.le (key a) (key b) = true))

instance : IsTrans α (C.by key) := ⟨fun a b c => C.trans (key a) (key b) (key c)⟩

instance : Std.Total (C.by key) := ⟨fun a b => by
  simpa [Collation.by] using C.total (key a) (key b)⟩

/-- `l.sort((a, b) => key(a).localeCompare(key(b)))`. -/
def Collation.sortBy (C : Collation) (key : α → JsString) (l : List α) : List α :=
  l.insertionSort (C.by key)

theorem Collation.sortBy_perm (l : List α) : (C.sortBy key l).Perm l := List.perm_insertionSort _ l

theorem Collation.pairwise_sortBy (l : List α) : (C.sortBy key l).Pairwise (C.by key) :=
  List.pairwise_insertionSort _ l

/-- Items that the language tells apart come out in one order. -/
theorem Collation.sortBy_eq {l l' : List α} (h : l.Perm l')
    (hkey : ∀ a ∈ l, ∀ b ∈ l, C.by key a b → C.by key b a → a = b) :
    C.sortBy key l = C.sortBy key l' := by
  have hp : (C.sortBy key l).Perm (C.sortBy key l') :=
    (sortBy_perm l).trans (h.trans (sortBy_perm l').symm)
  refine hp.eq_of_pairwise (fun a b ha hb => ?_) (pairwise_sortBy l) (pairwise_sortBy l')
  exact hkey a ((sortBy_perm l).subset ha) b (h.symm.subset ((sortBy_perm l').subset hb))

/-- The language does not tell two items apart. -/
def Collation.same (C : Collation) (key : α → JsString) (a b : α) : Bool :=
  C.by key a b ∧ C.by key b a

theorem Collation.same_iff {a b : α} : C.same key a b = true ↔ C.by key a b ∧ C.by key b a := by
  simp [same]

/-- STABLE: items that the language does not tell apart stay in their order. -/
theorem Collation.filter_sortBy (l : List α) (x : α) :
    (C.sortBy key l).filter (C.same key x) = l.filter (C.same key x) := by
  have hpair : (l.filter (C.same key x)).Pairwise (C.by key) := by
    refine List.pairwise_of_forall_mem_list fun a ha b hb => ?_
    obtain ⟨hxa, hax⟩ := same_iff.mp (List.mem_filter.mp ha).2
    obtain ⟨hxb, hbx⟩ := same_iff.mp (List.mem_filter.mp hb).2
    exact trans_of _ hax hxb
  have hsub := (List.sublist_insertionSort (r := C.by key) hpair List.filter_sublist).filter
    (C.same key x)
  rw [List.filter_filter] at hsub
  simp only [Bool.and_self] at hsub
  exact (hsub.eq_of_length ((sortBy_perm l).filter _).length_eq.symm).symm

theorem Collation.eq_of_sorted {s s' : List α} (hs : s.Pairwise (C.by key))
    (hs' : s'.Pairwise (C.by key)) (hp : s.Perm s')
    (hclass : ∀ x ∈ s, s.filter (C.same key x) = s'.filter (C.same key x)) : s = s' := by
  induction s generalizing s' with
  | nil => exact hp.nil_eq
  | cons a s ih =>
    cases s' with
    | nil => exact absurd hp.symm.nil_eq (by simp)
    | cons b s' =>
      have hself : ∀ c, C.by key c c := fun c => refl_of _ c
      have hle : ∀ c ∈ a :: s, C.by key a c := fun c hc =>
        (List.mem_cons.mp hc).elim (fun h => h ▸ hself _) (List.rel_of_pairwise_cons hs)
      have hle' : ∀ c ∈ b :: s', C.by key b c := fun c hc =>
        (List.mem_cons.mp hc).elim (fun h => h ▸ hself _) (List.rel_of_pairwise_cons hs')
      have hab : C.same key a b = true :=
        same_iff.mpr ⟨hle b (hp.mem_iff.mpr List.mem_cons_self),
          hle' a (hp.mem_iff.mp List.mem_cons_self)⟩
      have haa : C.same key a a = true := same_iff.mpr ⟨hself a, hself a⟩
      have hfirst := hclass a List.mem_cons_self
      rw [List.filter_cons_of_pos haa, List.filter_cons_of_pos hab, List.cons.injEq] at hfirst
      obtain ⟨rfl, -⟩ := hfirst
      refine congrArg (a :: ·) (ih hs.of_cons hs'.of_cons hp.cons_inv fun x hx => ?_)
      have hrest := hclass x (List.mem_cons_of_mem a hx)
      by_cases hxa : C.same key x a = true
      · rw [List.filter_cons_of_pos hxa, List.filter_cons_of_pos hxa] at hrest
        exact (List.cons.inj hrest).2
      · rwa [List.filter_cons_of_neg hxa, List.filter_cons_of_neg hxa] at hrest

/-- One order, when items that the language does not tell apart come in one order. -/
theorem Collation.sortBy_eq_of_same {l l' : List α} (hp : l.Perm l')
    (h : ∀ x ∈ l, l.filter (C.same key x) = l'.filter (C.same key x)) :
    C.sortBy key l = C.sortBy key l' := by
  refine eq_of_sorted (pairwise_sortBy l) (pairwise_sortBy l')
    ((sortBy_perm l).trans (hp.trans (sortBy_perm l').symm)) fun x hx => ?_
  rw [filter_sortBy, filter_sortBy]
  exact h x ((sortBy_perm l).subset hx)

/-! ### Maps of lists -/

variable {κ : Type*} [DecidableEq κ]

/-- `if (!groups.has(key)) groups.set(key, []); groups.get(key).push(item);`. -/
def collect (groups : List (κ × List α)) (key : κ) (item : α) : List (κ × List α) :=
  if groups.any fun g => g.1 = key then
    groups.map fun g => if g.1 = key then (key, g.2 ++ [item]) else g
  else groups ++ [(key, [item])]

/-- The items under a key. -/
def under (l : List (κ × α)) (k : κ) : List α := (l.filter fun x => x.1 = k).map Prod.snd

theorem under_append (l m : List (κ × α)) (k : κ) : under (l ++ m) k = under l k ++ under m k := by
  simp [under]

/-- COLLECTED: the keys in the order in which they came first, each with its items in order. -/
theorem foldl_collect (l : List (κ × α)) : l.foldl (fun g x => collect g x.1 x.2) [] =
    (l.map Prod.fst).eraseDups.map fun k => (k, under l k) := by
  induction l using List.reverseRecOn with
  | nil => rfl
  | append_singleton l x ih =>
    obtain ⟨k, a⟩ := x
    have hone : ∀ k', under [(k, a)] k' = if k = k' then [a] else [] := by
      intro k'
      by_cases h : k = k' <;> simp [under, h]
    rw [List.foldl_append, ih, List.foldl_cons, List.foldl_nil, List.map_append,
      List.eraseDups_append]
    by_cases hmem : k ∈ l.map Prod.fst
    · have hrest : ([(k, a)].map Prod.fst).removeAll (l.map Prod.fst) = [] := by
        simp [List.removeAll, hmem]
      rw [hrest, collect, if_pos (by simpa [List.mem_eraseDups] using hmem), List.map_map]
      simp only [List.eraseDups_nil, List.append_nil]
      refine List.map_congr_left fun k' _ => ?_
      simp only [Function.comp_apply, under_append, hone]
      by_cases hk : k' = k
      · simp [hk]
      · simp [hk, Ne.symm hk]
    · have hrest : ([(k, a)].map Prod.fst).removeAll (l.map Prod.fst) = [k] := by
        simp [List.removeAll, hmem]
      rw [hrest, collect, if_neg (by simpa [List.mem_eraseDups] using hmem)]
      have hnone : under l k = [] := by
        simp only [under, List.map_eq_nil_iff, List.filter_eq_nil_iff, decide_eq_true_eq]
        exact fun x hx h => hmem (h ▸ List.mem_map_of_mem hx)
      simp only [List.eraseDups_cons, List.filter_nil, List.eraseDups_nil, List.map_append,
        List.map_cons, List.map_nil, under_append, hone, if_true, hnone, List.nil_append]
      refine congrArg (· ++ _) (List.map_congr_left fun k' hk' => ?_)
      have hne : k ≠ k' := fun h => hmem (h ▸ List.mem_eraseDups.mp hk')
      simp [hne]

/-- What is collected under a key came with it. -/
theorem mem_collected {l : List (κ × α)} {g : κ × List α}
    (hg : g ∈ l.foldl (fun g x => collect g x.1 x.2) []) {a : α} (ha : a ∈ g.2) : (g.1, a) ∈ l := by
  rw [foldl_collect] at hg
  obtain ⟨k, -, rfl⟩ := List.mem_map.mp hg
  obtain ⟨⟨k', b⟩, hx, rfl⟩ := List.mem_map.mp ha
  obtain ⟨hx, hk⟩ := List.mem_filter.mp hx
  rw [decide_eq_true_eq] at hk
  exact hk ▸ hx

theorem exists_collected {l : List (κ × α)} {k : κ} {a : α} (h : (k, a) ∈ l) :
    ∃ g ∈ l.foldl (fun g x => collect g x.1 x.2) [], a ∈ g.2 := by
  rw [foldl_collect]
  refine ⟨(k, under l k), List.mem_map_of_mem ?_, ?_⟩
  · exact List.mem_eraseDups.mpr (List.mem_map_of_mem h)
  · exact List.mem_map_of_mem (List.mem_filter.mpr ⟨h, decide_eq_true rfl⟩)

/-- The keys share out the items. -/
theorem flatMap_filter_perm (f : α → κ) (l : List α) {ks : List κ}
    (hnodup : ks.Nodup) :
    (ks.flatMap fun k => l.filter fun x => f x = k).Perm (l.filter fun x => f x ∈ ks) := by
  induction ks with
  | nil => simp
  | cons k ks ih =>
    obtain ⟨hk, hks⟩ := List.nodup_cons.mp hnodup
    have hsplit := List.filter_append_perm (fun x => f x = k) (l.filter fun x => f x ∈ k :: ks)
    have hfirst : (l.filter fun x => f x ∈ k :: ks).filter (fun x => f x = k) =
        l.filter fun x => f x = k := by
      rw [List.filter_filter]
      refine List.filter_congr fun x _ => ?_
      by_cases hx : f x = k <;> simp [hx]
    have hrest : (l.filter fun x => f x ∈ k :: ks).filter (fun x => !decide (f x = k)) =
        l.filter fun x => f x ∈ ks := by
      rw [List.filter_filter]
      refine List.filter_congr fun x _ => ?_
      by_cases hx : f x = k
      · simp [hx, hk]
      · simp [hx]
    rw [hfirst, hrest] at hsplit
    rw [List.flatMap_cons]
    exact ((ih hks).append_left _).trans hsplit

/-- Every item is under one key. -/
theorem flatten_under (l : List (κ × α)) :
    ((l.map Prod.fst).eraseDups.map (under l)).flatten.Perm (l.map Prod.snd) := by
  have hperm := (flatMap_filter_perm Prod.fst l (nodup_eraseDups (l.map Prod.fst))).map Prod.snd
  have hall : (l.filter fun x => x.1 ∈ (l.map Prod.fst).eraseDups) = l := by
    refine List.filter_eq_self.mpr fun x hx => ?_
    simpa [List.mem_eraseDups] using ⟨x.2, hx⟩
  rwa [hall, List.map_flatMap] at hperm

end Truyn
