import Mathlib

/-! scheme:registers | registers that take a later item over an earlier one

    Every item has a register, and takes the place of what is there if `le` allows it. `Top` is the item
    of a register that every order of writes ends in; `OneWay` is what makes two boards equal once each
    has written the items of the other. -/

namespace Registers

variable {α κ : Type*} (le : α → α → Bool)

/-- What a register holds after an item is written. -/
def write : Option α → α → Option α
  | none, a => some a
  | some held, a => if le held a then some a else some held

/-- It takes the place of every other item, and none takes its place. -/
structure Top (S : Set α) (m : α) : Prop where
  mem : m ∈ S
  above : ∀ v ∈ S, v ≠ m → le v m = true
  unbeaten : ∀ v ∈ S, le m v = true → v = m

/-- Of two items, one takes the place of the other. -/
def OneWay (S : Set α) : Prop := ∀ v ∈ S, ∀ w ∈ S, v ≠ w → le v w = !le w v

/-- The items of a register. -/
def slotted (slot : α → Option κ) (S : Set α) (k : κ) : Set α := {a | a ∈ S ∧ slot a = some k}

variable {le} {S : Set α} {m v w : α} {held : Option α} {l l' : List α}

/-! ### One register -/

theorem write_or (le : α → α → Bool) (held : Option α) (a : α) :
    write le held a = some a ∨ write le held a = held := by
  cases held with
  | none => exact .inl rfl
  | some h =>
    rw [write]
    split
    · exact .inl rfl
    · exact .inr rfl

theorem writes_mem (h : l.foldl (write le) held = some m) : held = some m ∨ m ∈ l := by
  induction l generalizing held with
  | nil => exact .inl h
  | cons a l ih =>
    rcases ih h with hm | hm
    · rcases write_or le held a with ha | ha
      · rw [ha] at hm
        exact .inr (Option.some.inj hm ▸ List.mem_cons_self)
      · exact .inl (ha.symm.trans hm)
    · exact .inr (List.mem_cons_of_mem _ hm)

/-- Where the top is, it stays. -/
theorem Top.write_self (h : Top le S m) (hv : v ∈ S) : write le (some m) v = some m := by
  rw [write]
  split
  · next hle => rw [h.unbeaten v hv hle]
  · rfl

/-- When the top is written, it is there. -/
theorem Top.write_top (h : Top le S m) (hheld : ∀ v, held = some v → v ∈ S) :
    write le held m = some m := by
  cases held with
  | none => rfl
  | some v =>
    by_cases hv : v = m
    · rw [hv]
      exact h.write_self h.mem
    · rw [write, if_pos (h.above v (hheld v rfl) hv)]

theorem Top.writes (h : Top le S m) (hheld : ∀ v, held = some v → v ∈ S) (hl : ∀ v ∈ l, v ∈ S)
    (hm : held = some m ∨ m ∈ l) : l.foldl (write le) held = some m := by
  induction l generalizing held with
  | nil => simpa using hm
  | cons a l ih =>
    have ha := hl a List.mem_cons_self
    refine ih (fun v hv => ?_) (fun v hv => hl v (List.mem_cons_of_mem _ hv)) ?_
    · rcases write_or le held a with hw | hw
      · rw [hw] at hv
        exact Option.some.inj hv ▸ ha
      · exact hheld v (hw.symm.trans hv)
    · rcases hm with rfl | hm
      · exact .inl (h.write_self ha)
      · rcases List.mem_cons.mp hm with rfl | hm
        · exact .inl (h.write_top hheld)
        · exact .inr hm

/-- If every order of the same items, with repetitions, ends in the same one, that is the top. -/
theorem top_of_converges {items : List α} (hne : items ≠ [])
    (h : ∀ l l' : List α, (∀ a, a ∈ l ↔ a ∈ items) → (∀ a, a ∈ l' ↔ a ∈ items) →
      l.foldl (write le) none = l'.foldl (write le) none) : ∃ m, Top le {a | a ∈ items} m := by
  classical
  have hsome : ∀ l : List α, l ≠ [] → ∃ m, l.foldl (write le) none = some m := by
    intro l hl
    induction l using List.reverseRecOn with
    | nil => exact absurd rfl hl
    | append_singleton l a ih =>
      rw [List.foldl_append]
      rcases write_or le (l.foldl (write le) none) a with hw | hw
      · exact ⟨a, hw⟩
      · by_cases hl : l = []
        · subst hl
          exact ⟨a, rfl⟩
        · obtain ⟨m, hm⟩ := ih hl
          exact ⟨m, hw.trans hm⟩
  obtain ⟨m, hm⟩ := hsome items hne
  have hin : m ∈ items := (writes_mem hm).resolve_left (by simp)
  refine ⟨m, hin, fun v hv hne => ?_, fun v hv hle => ?_⟩
  · -- Begin with `v` and `m`: if `v` stays, no later item is `m`.
    by_contra hle
    have horder := h (v :: m :: items.filter (· ≠ m)) items (fun a => ?_) (fun a => Iff.rfl)
    · rw [hm, List.foldl_cons, List.foldl_cons, write, write, if_neg hle] at horder
      rcases writes_mem horder with heq | hmem
      · exact hne (Option.some.inj heq)
      · simp at hmem
    · by_cases ha : a = m
      · simp [ha, hin]
      · simp only [List.mem_cons, List.mem_filter, ha, false_or, ne_eq, not_false_eq_true,
          decide_true, and_true]
        exact ⟨fun hor => hor.elim (fun heq => heq ▸ hv) id, .inr⟩
  · have horder := h (items ++ [v]) items (fun a => ?_) (fun a => Iff.rfl)
    · rw [List.foldl_append, hm, List.foldl_cons, List.foldl_nil, write, if_pos hle] at horder
      exact Option.some.inj horder
    · simp only [List.mem_append, List.mem_singleton]
      exact ⟨fun hor => hor.elim id fun heq => heq ▸ hv, .inl⟩

/-- Each of two registers writes what the other holds: then they hold the same. -/
theorem OneWay.exchange (h : OneWay le S) (hv : v ∈ S) (hw : w ∈ S) :
    write le (some v) w = write le (some w) v := by
  by_cases heq : v = w
  · rw [heq]
  · rw [write, write, h v hv w hw heq]
    cases le w v <;> rfl

theorem OneWay.of_exchange
    (h : ∀ v ∈ S, ∀ w ∈ S, write le (some v) w = write le (some w) v) : OneWay le S := by
  intro v hv w hw hne
  have heq := h v hv w hw
  simp only [write] at heq
  cases hvw : le v w <;> cases hwv : le w v <;> simp_all

/-- Items that are ordered by a number, no two by the same one. -/
theorem oneWay_of_rank {f : α → ℚ}
    (h : ∀ v ∈ S, ∀ w ∈ S, v ≠ w → f v ≠ f w ∧ (le v w = true ↔ f v < f w)) : OneWay le S := by
  intro v hv w hw hne
  obtain ⟨hf, hvw⟩ := h v hv w hw hne
  have hwv := (h w hw v hv (Ne.symm hne)).2
  rcases lt_or_gt_of_ne hf with hlt | hlt
  · have hfalse : le w v = false := by
      rw [← Bool.not_eq_true, hwv]
      exact hlt.le.not_gt
    rw [hvw.mpr hlt, hfalse]
    rfl
  · have hfalse : le v w = false := by
      rw [← Bool.not_eq_true, hvw]
      exact hlt.le.not_gt
    rw [hwv.mpr hlt, hfalse]
    rfl

theorem top_of_rank {f : α → ℚ} (hfin : S.Finite) (hne : S.Nonempty)
    (h : ∀ v ∈ S, ∀ w ∈ S, v ≠ w → f v ≠ f w ∧ (le v w = true ↔ f v < f w)) :
    ∃ m, Top le S m := by
  obtain ⟨m, hm, hmax⟩ := hfin.exists_maximalFor f S hne
  have hle : ∀ v ∈ S, f v ≤ f m := fun v hv => by
    rcases le_total (f v) (f m) with hvm | hmv
    · exact hvm
    · exact hmax hv hmv
  refine ⟨m, hm, fun v hv hvm => ?_, fun v hv hmv => ?_⟩
  · obtain ⟨hf, hvm'⟩ := h v hv m hm hvm
    exact hvm'.mpr (lt_of_le_of_ne (hle v hv) hf)
  · by_contra hne
    obtain ⟨-, hlt⟩ := h m hm v hv (Ne.symm hne)
    exact (hle v hv).not_gt (hlt.mp hmv)

theorem eq_singleton (hl : l.Nodup) (hm : m ∈ l) (h : ∀ a ∈ l, a = m) : l = [m] := by
  rw [List.eq_replicate_of_mem h] at hl hm ⊢
  have hle := List.nodup_replicate.mp hl
  have hpos := List.length_pos_of_mem hm
  rw [List.length_replicate] at hpos
  rw [Nat.le_antisymm hle hpos]
  rfl

/-! ### Boards -/

section Boards
variable [DecidableEq κ] {slot : α → Option κ} {b b' : κ → Option α} {k : κ} {a : α}
  {heard heard' : Set α}

/-- An item is written in its register; one without a register is not. -/
def put (le : α → α → Bool) (slot : α → Option κ) (b : κ → Option α) (a : α) : κ → Option α :=
  fun k => if slot a = some k then write le (b k) a else b k

theorem puts_apply : (l.foldl (put le slot) b) k =
    (l.filter fun a => slot a = some k).foldl (write le) (b k) := by
  induction l generalizing b with
  | nil => rfl
  | cons a l ih =>
    rw [List.foldl_cons, ih, put]
    by_cases hk : slot a = some k <;> simp [hk]

/-- What is there are items of the register, and the top if it was heard of. -/
structure Settled (le : α → α → Bool) (slot : α → Option κ) (S heard : Set α) (b : κ → Option α) :
    Prop where
  sound : ∀ k a, b k = some a → a ∈ slotted slot S k
  top : ∀ k m, Top le (slotted slot S k) m → m ∈ heard → b k = some m

omit [DecidableEq κ] in
theorem settled_empty : Settled le slot S ∅ fun _ => none where
  sound := fun _ _ h => by cases h
  top := fun _ _ _ h => by cases h

omit [DecidableEq κ] in
theorem Settled.mono (h : Settled le slot S heard b) (hsub : heard' ⊆ heard) :
    Settled le slot S heard' b :=
  ⟨h.sound, fun k m hm hheard => h.top k m hm (hsub hheard)⟩

theorem Settled.puts (h : Settled le slot S heard b) (hl : ∀ a ∈ l, a ∈ S) :
    Settled le slot S (heard ∪ {a | a ∈ l}) (l.foldl (put le slot) b) := by
  have hslot : ∀ k, ∀ a ∈ l.filter fun a => slot a = some k, a ∈ slotted slot S k := by
    intro k a ha
    rw [List.mem_filter, decide_eq_true_eq] at ha
    exact ⟨hl a ha.1, ha.2⟩
  constructor
  · intro k a ha
    rw [puts_apply] at ha
    rcases writes_mem ha with ha | ha
    · exact h.sound k a ha
    · exact hslot k a ha
  · intro k m hm hheard
    rw [puts_apply]
    refine hm.writes (h.sound k) (hslot k) ?_
    rcases hheard with hheard | hmem
    · exact .inl (h.top k m hm hheard)
    · exact .inr (List.mem_filter.mpr ⟨hmem, by simpa using hm.mem.2⟩)

/-- The items of a board, each once. -/
structure Lists (slot : α → Option κ) (l : List α) (b : κ → Option α) : Prop where
  mem : ∀ k a, b k = some a → a ∈ l ∧ slot a = some k
  back : ∀ a ∈ l, ∃ k, slot a = some k ∧ b k = some a
  nodup : l.Nodup

/-- A board that writes the items of another has heard what that has heard. -/
theorem Settled.hears (h : Settled le slot S heard b) (h' : Settled le slot S heard' b')
    (hl : Lists slot l b') : Settled le slot S (heard ∪ heard') (l.foldl (put le slot) b) := by
  have hS : ∀ a ∈ l, a ∈ S := fun a ha => by
    obtain ⟨k, -, hk⟩ := hl.back a ha
    exact (h'.sound k a hk).1
  have hputs := h.puts hS
  refine ⟨hputs.sound, fun k m hm hheard => hputs.top k m hm ?_⟩
  exact hheard.imp id fun hheard => (hl.mem k m (h'.top k m hm hheard)).1

omit [DecidableEq κ] in
theorem Settled.none (h : Settled le slot S heard b) (hne : ¬(slotted slot S k).Nonempty) :
    b k = none := by
  cases hk : b k with
  | none => rfl
  | some a => exact absurd ⟨a, h.sound k a hk⟩ hne

omit [DecidableEq κ] in
theorem Settled.eq (h : Settled le slot S heard b) (h' : Settled le slot S heard' b')
    (htop : ∀ k, (slotted slot S k).Nonempty → ∃ m, Top le (slotted slot S k) m)
    (hS : S ⊆ heard) (hS' : S ⊆ heard') : b = b' := by
  funext k
  by_cases hne : (slotted slot S k).Nonempty
  · obtain ⟨m, hm⟩ := htop k hne
    rw [h.top k m hm (hS hm.mem.1), h'.top k m hm (hS' hm.mem.1)]
  · rw [h.none hne, h'.none hne]

/-- In a register, writing the items of a board is writing the one it has there. -/
theorem Lists.puts (le : α → α → Bool) (hl : Lists slot l b') (b : κ → Option α) (k : κ) :
    (l.foldl (put le slot) b) k = (b' k).elim (b k) (write le (b k)) := by
  rw [puts_apply]
  have hslot : ∀ a ∈ l, slot a = some k → b' k = some a := by
    intro a ha hk
    obtain ⟨j, hj, hb⟩ := hl.back a ha
    rw [hk] at hj
    cases hj
    exact hb
  cases hb : b' k with
  | none =>
    have hnil : l.filter (fun a => slot a = some k) = [] :=
      List.filter_eq_nil_iff.mpr fun a ha hk => by
        have := hslot a ha (by simpa using hk)
        rw [hb] at this
        cases this
    rw [hnil]
    rfl
  | some w =>
    obtain ⟨hw, hwk⟩ := hl.mem k w hb
    have hone : l.filter (fun a => slot a = some k) = [w] := by
      refine eq_singleton (hl.nodup.filter _) (List.mem_filter.mpr ⟨hw, by simpa using hwk⟩) ?_
      intro a ha
      rw [List.mem_filter, decide_eq_true_eq] at ha
      exact Option.some.inj ((hslot a ha.1 ha.2).symm.trans hb)
    rw [hone]
    rfl

/-- Two boards write the items of each other: then they are equal. -/
theorem Lists.exchange (hone : ∀ k, OneWay le (slotted slot S k))
    (h : Settled le slot S heard b) (h' : Settled le slot S heard' b')
    (hl : Lists slot l b) (hl' : Lists slot l' b') :
    l'.foldl (put le slot) b = l.foldl (put le slot) b' := by
  funext k
  rw [hl'.puts le, hl.puts le]
  cases hb : b k with
  | none => cases hb' : b' k <;> rfl
  | some v =>
    cases hb' : b' k with
    | none => rfl
    | some w => exact (hone k).exchange (h.sound k v hb) (h'.sound k w hb')

/-- A board that writes its own items stays. -/
theorem Lists.again (hl : Lists slot l b) : l.foldl (put le slot) b = b := by
  funext k
  rw [hl.puts le]
  cases hb : b k with
  | none => rfl
  | some v =>
    rw [Option.elim, write]
    split <;> rfl

end Boards

end Registers
