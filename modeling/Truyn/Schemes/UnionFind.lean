import Mathlib

/-! scheme:union-find | disjoint sets as a forest of parent pointers, with path halving

    `find` follows the pointers to the root and makes every element on its way point to its
    grandparent; `union` makes one root the parent of the other. A forest carries the reason why
    `find` ends: `depth` goes down along the pointers. Two elements are together when they have one
    root (`top`).

    `mark` is the usual way to merge by labels: the first element with a label owns it, every other
    one is united with the owner. Then two elements are together just when a chain leads from one to
    the other, each link of which has a label in common (`together_marked`). -/

namespace Truyn.UnionFind
open Relation

variable {α β : Type*} [DecidableEq α] [DecidableEq β]

/-- Parent pointers that lead to a root; `depth` bounds the way there. -/
structure Forest (α : Type*) where
  parent : α → α
  depth : α → ℕ
  down : ∀ v, parent v ≠ v → depth (parent v) < depth v

/-- Everybody on their own. -/
def alone : Forest α := ⟨id, fun _ => 0, fun _ h => absurd rfl h⟩

/-- The root. -/
def Forest.top (F : Forest α) (v : α) : α := F.parent^[F.depth v] v

variable {F : Forest α} {a b v x y : α}

omit [DecidableEq α] in
theorem Forest.iterate_root (n : ℕ) : ∀ v, F.depth v ≤ n →
    F.parent (F.parent^[n] v) = F.parent^[n] v := by
  induction n with
  | zero =>
    intro v hv
    by_contra hne
    have := F.down v hne
    omega
  | succ n ih =>
    intro v hv
    rw [Function.iterate_succ_apply]
    by_cases hr : F.parent v = v
    · rw [hr, Function.iterate_fixed hr]
      exact hr
    · have := F.down v hr
      exact ih _ (by omega)

omit [DecidableEq α] in
theorem Forest.root_top : F.parent (F.top v) = F.top v := iterate_root _ v (Nat.le_refl _)

omit [DecidableEq α] in
@[simp] theorem Forest.top_of_root (h : F.parent v = v) : F.top v = v := Function.iterate_fixed h _

omit [DecidableEq α] in
theorem Forest.iterate_eq_top {n : ℕ} (h : F.depth v ≤ n) : F.parent^[n] v = F.top v := by
  obtain ⟨m, rfl⟩ := Nat.exists_eq_add_of_le' h
  rw [Function.iterate_add_apply]
  exact Function.iterate_fixed root_top m

omit [DecidableEq α] in
@[simp] theorem Forest.top_parent : F.top (F.parent v) = F.top v := by
  by_cases hr : F.parent v = v
  · rw [hr]
  · have hlt := F.down v hr
    obtain ⟨n, hn⟩ := Nat.exists_eq_succ_of_ne_zero (Nat.ne_of_gt (Nat.zero_lt_of_lt hlt))
    have hle : F.depth (F.parent v) ≤ n := by omega
    rw [← iterate_eq_top hle, ← Function.iterate_succ_apply, ← hn]
    rfl

omit [DecidableEq α] in
/-- What holds of roots, and of whoever's parent it holds of, holds of all. -/
theorem Forest.induct {P : α → Prop} (F : Forest α) (root : ∀ v, F.parent v = v → P v)
    (child : ∀ v, F.parent v ≠ v → P (F.parent v) → P v) (v : α) : P v := by
  induction hd : F.depth v using Nat.strong_induction_on generalizing v with
  | _ n ih =>
    by_cases hr : F.parent v = v
    · exact root v hr
    · exact child v hr (ih _ (hd ▸ F.down v hr) _ rfl)

/-! ### find -/

/-- `parent[value] = parent[parent[value]]`. -/
def Forest.halve (F : Forest α) (v : α) : Forest α where
  parent := Function.update F.parent v (F.parent (F.parent v))
  depth := F.depth
  down := by
    intro x hx
    by_cases hxv : x = v
    · subst hxv
      rw [Function.update_self] at hx ⊢
      have h₁ : F.parent x ≠ x := fun h => hx (by rw [h, h])
      have h₂ := F.down x h₁
      by_cases h₃ : F.parent (F.parent x) = F.parent x
      · rw [h₃]
        exact h₂
      · exact (F.down _ h₃).trans h₂
    · rw [Function.update_of_ne hxv] at hx ⊢
      exact F.down x hx

theorem Forest.halve_parent : (F.halve v).parent v = F.parent (F.parent v) := by
  simp [halve]

theorem Forest.halve_parent_ne (h : x ≠ v) : (F.halve v).parent x = F.parent x := by
  simp [halve, h]

@[simp] theorem Forest.top_halve : (F.halve v).top x = F.top x := by
  induction x using (F.halve v).induct with
  | root x hx =>
    have hr : F.parent x = x := by
      by_cases hxv : x = v
      · subst hxv
        rw [halve_parent] at hx
        by_contra hne
        have h₁ := F.down x hne
        have h₂ : F.parent (F.parent x) ≠ F.parent x := fun h => hne (h.symm.trans hx)
        have h₃ := F.down _ h₂
        rw [hx] at h₃
        omega
      · rwa [halve_parent_ne hxv] at hx
    rw [top_of_root hx, top_of_root hr]
  | child x hx ih =>
    rw [← top_parent, ih]
    by_cases hxv : x = v
    · subst hxv
      rw [halve_parent, top_parent, top_parent]
    · rw [halve_parent_ne hxv, top_parent]

/-- The loop of `find`, at most so many times. -/
def Forest.findWithin : ℕ → Forest α → α → Forest α × α
  | 0, F, v => (F, v)
  | n + 1, F, v =>
    if F.parent v = v then (F, v) else findWithin n (F.halve v) ((F.halve v).parent v)

/-- The forest that `find` leaves, and the root it finds. -/
def Forest.find (F : Forest α) (v : α) : Forest α × α := F.findWithin (F.depth v) v

theorem Forest.findWithin_top (n : ℕ) : ∀ (F : Forest α) (v : α), F.depth v ≤ n →
    (F.findWithin n v).2 = F.top v ∧ ∀ x, (F.findWithin n v).1.top x = F.top x := by
  induction n with
  | zero =>
    intro F v hv
    have hr : F.parent v = v := by
      by_contra hne
      have := F.down v hne
      omega
    exact ⟨(top_of_root hr).symm, fun _ => rfl⟩
  | succ n ih =>
    intro F v hv
    rw [findWithin]
    split
    · next hr => exact ⟨(top_of_root hr).symm, fun _ => rfl⟩
    · next hr =>
      have hle : (F.halve v).depth ((F.halve v).parent v) ≤ n := by
        rw [halve_parent]
        show F.depth (F.parent (F.parent v)) ≤ n
        have h₁ := F.down v hr
        by_cases h₂ : F.parent (F.parent v) = F.parent v
        · rw [h₂]
          omega
        · have := F.down _ h₂
          omega
      obtain ⟨hroot, hsame⟩ := ih (F.halve v) _ hle
      refine ⟨?_, fun x => (hsame x).trans top_halve⟩
      rw [hroot, top_parent, top_halve]

theorem Forest.find_root : (F.find v).2 = F.top v := (findWithin_top _ F v (Nat.le_refl _)).1

@[simp] theorem Forest.find_top : (F.find v).1.top x = F.top x :=
  (findWithin_top _ F v (Nat.le_refl _)).2 x

/-! ### union -/

/-- `parent[b] = a`, of two roots. -/
def Forest.link (F : Forest α) (a b : α) (ha : F.parent a = a) : Forest α where
  parent := Function.update F.parent b a
  depth := fun x => if x = a then 0 else F.depth x + 1
  down := by
    intro v hv
    by_cases hvb : v = b
    · subst hvb
      rw [Function.update_self] at hv ⊢
      rw [if_pos rfl, if_neg (Ne.symm hv)]
      exact Nat.succ_pos _
    · rw [Function.update_of_ne hvb] at hv ⊢
      have hva : v ≠ a := fun h => hv (h ▸ ha)
      rw [if_neg hva]
      split
      · exact Nat.succ_pos _
      · exact Nat.succ_lt_succ (F.down v hv)

theorem Forest.top_link (ha : F.parent a = a) (hb : F.parent b = b) (hne : a ≠ b) :
    (F.link a b ha).top x = if F.top x = b then a else F.top x := by
  have hparent : ∀ {y}, y ≠ b → (F.link a b ha).parent y = F.parent y := fun h => by simp [link, h]
  have hlast : (F.link a b ha).top a = a := top_of_root ((hparent hne).trans ha)
  induction x using F.induct with
  | root x hx =>
    rw [top_of_root hx]
    split
    · next hxb =>
      subst hxb
      have hto : (F.link a x ha).parent x = a := by simp [link]
      rw [← top_parent, hto, hlast]
    · next hxb => exact top_of_root ((hparent hxb).trans hx)
  | child x hx ih =>
    have hxb : x ≠ b := fun h => hx (h ▸ hb)
    rw [top_parent] at ih
    rw [← ih, ← top_parent, hparent hxb]

def Forest.union (F : Forest α) (a b : α) : Forest α :=
  let found := F.find a
  let other := found.1.find b
  if found.2 ≠ other.2 then
    other.1.link found.2 other.2 (by
      have hroot : other.1.top found.2 = found.2 := by
        rw [find_top, find_top, find_root]
        exact top_of_root root_top
      rw [← hroot]
      exact root_top)
  else other.1

theorem Forest.top_union :
    (F.union a b).top x = if F.top x = F.top b then F.top a else F.top x := by
  have hall : ∀ y, ((F.find a).1.find b).1.top y = F.top y := fun y => by simp
  have hroot : ∀ y, ((F.find a).1.find b).1.parent (F.top y) = F.top y := by
    intro y
    rw [← hall y]
    exact root_top
  have ha : (F.find a).2 = F.top a := find_root
  have hb : ((F.find a).1.find b).2 = F.top b := by rw [find_root, find_top]
  unfold union
  simp only [ha, hb]
  split
  · next hne => rw [top_link (hroot a) (hroot b) hne, hall]
  · next heq =>
    rw [hall]
    split
    · next hx => rw [hx, not_not.mp heq]
    · rfl

/-- Two elements have one root. -/
def Forest.Together (F : Forest α) (x y : α) : Prop := F.top x = F.top y

theorem Forest.together_union : (F.union a b).Together x y ↔ F.Together x y ∨
    (F.Together x a ∧ F.Together b y) ∨ (F.Together x b ∧ F.Together a y) := by
  unfold Together
  rw [top_union, top_union]
  grind

/-- Uniting `u` with all of `us` makes them one, and leaves the others. -/
theorem Forest.together_unite (u : α) (us : List α) (F : Forest α) (x y : α) :
    (us.foldl (fun G v => G.union u v) F).Together x y ↔ F.Together x y ∨
      (∃ v ∈ u :: us, F.Together x v) ∧ ∃ v ∈ u :: us, F.Together v y := by
  induction us generalizing F with
  | nil =>
    refine ⟨.inl, fun h => h.elim id ?_⟩
    rintro ⟨⟨v, hv, hx⟩, w, hw, hy⟩
    rw [List.mem_singleton.mp hv] at hx
    rw [List.mem_singleton.mp hw] at hy
    exact Eq.trans hx hy
  | cons w us ih =>
    rw [List.foldl_cons, ih]
    have hsymm : ∀ {p q}, F.Together p q → F.Together q p := fun h => Eq.symm h
    have hto : ∀ p, (∃ v ∈ u :: us, (F.union u w).Together p v) ↔
        ∃ v ∈ u :: w :: us, F.Together p v := by
      intro p
      constructor
      · rintro ⟨v, hv, hp⟩
        rcases together_union.mp hp with hp | ⟨hp, -⟩ | ⟨hp, -⟩
        · refine ⟨v, ?_, hp⟩
          rcases List.mem_cons.mp hv with rfl | hv
          · exact List.mem_cons_self
          · exact List.mem_cons_of_mem _ (List.mem_cons_of_mem _ hv)
        · exact ⟨u, List.mem_cons_self, hp⟩
        · exact ⟨w, List.mem_cons_of_mem _ List.mem_cons_self, hp⟩
      · rintro ⟨v, hv, hp⟩
        rcases List.mem_cons.mp hv with rfl | hv
        · exact ⟨v, List.mem_cons_self, together_union.mpr (.inl hp)⟩
        rcases List.mem_cons.mp hv with rfl | hv
        · exact ⟨u, List.mem_cons_self, together_union.mpr (.inr (.inr ⟨hp, rfl⟩))⟩
        · exact ⟨v, List.mem_cons_of_mem _ hv, together_union.mpr (.inl hp)⟩
    have hfrom : ∀ p, (∃ v ∈ u :: us, (F.union u w).Together v p) ↔
        ∃ v ∈ u :: w :: us, F.Together v p := by
      intro p
      constructor
      · rintro ⟨v, hv, hp⟩
        obtain ⟨v', hv', hp'⟩ := (hto p).mp ⟨v, hv, Eq.symm hp⟩
        exact ⟨v', hv', hsymm hp'⟩
      · rintro ⟨v, hv, hp⟩
        obtain ⟨v', hv', hp'⟩ := (hto p).mpr ⟨v, hv, hsymm hp⟩
        exact ⟨v', hv', Eq.symm hp'⟩
    rw [hto, hfrom, together_union]
    constructor
    · rintro ((h | ⟨h, h'⟩ | ⟨h, h'⟩) | h)
      · exact .inl h
      · exact .inr ⟨⟨u, List.mem_cons_self, h⟩, w, List.mem_cons_of_mem _ List.mem_cons_self, h'⟩
      · exact .inr ⟨⟨w, List.mem_cons_of_mem _ List.mem_cons_self, h⟩, u, List.mem_cons_self, h'⟩
      · exact .inr h
    · rintro (h | h)
      · exact .inl (.inl h)
      · exact .inr h

/-! ### Labels -/

/-- Two elements have a label in common. -/
def Share (l : List (α × β)) (x y : α) : Prop := ∃ t, (x, t) ∈ l ∧ (y, t) ∈ l

omit [DecidableEq α] [DecidableEq β] in
theorem Share.symm {l : List (α × β)} (h : Share l x y) : Share l y x :=
  h.imp fun _ ht => ⟨ht.2, ht.1⟩

omit [DecidableEq α] [DecidableEq β] in
theorem linked_symm {l : List (α × β)} (h : ReflTransGen (Share l) x y) :
    ReflTransGen (Share l) y x := by
  induction h with
  | refl => exact .refl
  | tail _ hs ih => exact .head hs.symm ih

/-- One element has one label: it owns the label, or is united with the owner. -/
def mark (s : Forest α × (β → Option α)) (x : α × β) : Forest α × (β → Option α) :=
  match s.2 x.2 with
  | some owner => (s.1.union x.1 owner, s.2)
  | none => (s.1, Function.update s.2 x.2 (some x.1))

/-- What is known after the labels `l`. -/
structure Marked (l : List (α × β)) (s : Forest α × (β → Option α)) : Prop where
  together : ∀ x y, s.1.Together x y ↔ ReflTransGen (Share l) x y
  owner : ∀ t o, s.2 t = some o → (o, t) ∈ l
  owned : ∀ x t, (x, t) ∈ l → (s.2 t).isSome = true

omit [DecidableEq α] [DecidableEq β] in
theorem marked_nil : Marked ([] : List (α × β)) (alone, fun _ => none) where
  together x y := by
    refine ⟨fun h => ?_, fun h => ?_⟩
    · have hxy : x = y := h
      rw [hxy]
    · induction h with
      | refl => rfl
      | tail _ hs _ =>
        obtain ⟨_, h, -⟩ := hs
        cases h
  owner _ _ h := by cases h
  owned _ _ h := by cases h

variable {l : List (α × β)} {s : Forest α × (β → Option α)}

/-- STEP: one more label. -/
theorem Marked.step (h : Marked l s) (x : α × β) : Marked (l ++ [x]) (mark s x) := by
  have hgrow : ∀ y z, ReflTransGen (Share l) y z → ReflTransGen (Share (l ++ [x])) y z :=
    ReflTransGen.mono fun _ _ ⟨t, h₁, h₂⟩ =>
      ⟨t, List.mem_append_left _ h₁, List.mem_append_left _ h₂⟩
  have hlast : x ∈ l ++ [x] := List.mem_append_right _ (List.mem_singleton_self x)
  unfold mark
  split
  · next owner howner =>
    have hmem := h.owner _ _ howner
    have hshare : Share (l ++ [x]) x.1 owner := ⟨x.2, hlast, List.mem_append_left _ hmem⟩
    have hto : ∀ y, (y, x.2) ∈ l ++ [x] → (s.1.union x.1 owner).Together y x.1 := by
      intro y hy
      rw [Forest.together_union]
      rcases List.mem_append.mp hy with hy | hy
      · exact .inr (.inr ⟨(h.together y owner).mpr (.single ⟨x.2, hy, hmem⟩), rfl⟩)
      · rw [List.mem_singleton] at hy
        exact .inl (by rw [← hy]; rfl)
    refine ⟨fun y z => ⟨fun hyz => ?_, fun hyz => ?_⟩, fun t o ho => ?_, fun y t hy => ?_⟩
    · rw [Forest.together_union, h.together, h.together, h.together, h.together, h.together] at hyz
      rcases hyz with hyz | ⟨h₁, h₂⟩ | ⟨h₁, h₂⟩
      · exact hgrow y z hyz
      · exact ((hgrow _ _ h₁).tail hshare).trans (hgrow _ _ h₂)
      · exact ((hgrow _ _ h₁).tail hshare.symm).trans (hgrow _ _ h₂)
    · induction hyz with
      | refl => rfl
      | @tail v w _ hvw ih =>
        refine ih.trans ?_
        obtain ⟨t, hv, hw⟩ := hvw
        by_cases ht : t = x.2
        · subst ht
          exact (hto v hv).trans (hto w hw).symm
        · have hold : ∀ {u}, (u, t) ∈ l ++ [x] → (u, t) ∈ l := by
            intro u hu
            rcases List.mem_append.mp hu with hu | hu
            · exact hu
            · rw [List.mem_singleton] at hu
              exact absurd (congrArg Prod.snd hu) ht
          rw [show (s.1.union x.1 owner).top v = (s.1.union x.1 owner).top w ↔ _ from
            Forest.together_union]
          exact .inl ((h.together v w).mpr (.single ⟨t, hold hv, hold hw⟩))
    · exact List.mem_append_left _ (h.owner t o ho)
    · rcases List.mem_append.mp hy with hy | hy
      · exact h.owned y t hy
      · rw [List.mem_singleton] at hy
        rw [← hy] at howner
        exact Option.isSome_iff_exists.mpr ⟨owner, howner⟩
  · next hnone =>
    have hnew : ∀ y, (y, x.2) ∉ l := by
      intro y hy
      have := h.owned y x.2 hy
      rw [hnone] at this
      cases this
    refine ⟨fun y z => ⟨fun hyz => hgrow y z ((h.together y z).mp hyz), fun hyz => ?_⟩,
      fun t o ho => ?_, fun y t hy => ?_⟩
    · refine (h.together y z).mpr ?_
      induction hyz with
      | refl => exact .refl
      | @tail v w _ hvw ih =>
        obtain ⟨t, hv, hw⟩ := hvw
        rcases List.mem_append.mp hv with hv | hv
        · rcases List.mem_append.mp hw with hw | hw
          · exact ih.tail ⟨t, hv, hw⟩
          · rw [List.mem_singleton] at hw
            rw [← hw] at hnew
            exact absurd hv (hnew v)
        · rw [List.mem_singleton] at hv
          rcases List.mem_append.mp hw with hw | hw
          · rw [← hv] at hnew
            exact absurd hw (hnew w)
          · rw [List.mem_singleton] at hw
            rw [← hv] at hw
            cases hw
            exact ih
    · simp only at ho
      by_cases ht : t = x.2
      · subst ht
        rw [Function.update_self] at ho
        cases ho
        exact hlast
      · rw [Function.update_of_ne ht] at ho
        exact List.mem_append_left _ (h.owner t o ho)
    · simp only
      by_cases ht : t = x.2
      · subst ht
        rw [Function.update_self]
        rfl
      · rw [Function.update_of_ne ht]
        rcases List.mem_append.mp hy with hy | hy
        · exact h.owned y t hy
        · rw [List.mem_singleton] at hy
          exact absurd (congrArg Prod.snd hy) ht

theorem Marked.fold (h : Marked l s) (l' : List (α × β)) : Marked (l ++ l') (l'.foldl mark s) := by
  induction l' generalizing l s with
  | nil =>
    rw [List.append_nil]
    exact h
  | cons x l' ih =>
    rw [List.foldl_cons, List.append_cons]
    exact ih (h.step x)

/-- MARKED: elements are together just when a chain of common labels links them. -/
theorem together_marked (l : List (α × β)) :
    (l.foldl mark (alone, fun _ => none)).1.Together x y ↔ ReflTransGen (Share l) x y :=
  (Marked.fold marked_nil l).together x y

end Truyn.UnionFind
