import Mathlib

/-! scheme:lanes | calls that take turns, each behind the promise of the one before it

    Of each key the last call is remembered, until it has ended and forgets itself. A new call waits for
    the promise of the one that is remembered; that promise is settled when its call has ended and the
    promise before it is settled. So calls of one key take turns in the order in which they came
    (`Ordered.one_working`), and as long as one of them is not settled one of them can go on
    (`Ordered.next_step`). -/

namespace Lanes

variable {κ : Type*}

inductive Phase
  | waiting
  | working
  | finished
  | settled
  deriving DecidableEq

def Phase.ended : Phase → Bool
  | .waiting | .working => false
  | .finished | .settled => true

/-- How many phases are to come. -/
def Phase.left : Phase → ℕ
  | .waiting => 3
  | .working => 2
  | .finished => 1
  | .settled => 0

structure Entry (κ : Type*) where
  key : κ
  previous : Option ℕ
  phase : Phase

structure Queue (κ : Type*) where
  entries : List (Entry κ) := []
  tails : κ → Option ℕ := fun _ => none

namespace Queue

variable {q q' : Queue κ} {k : κ} {l m : ℕ} {e f : Entry κ}

/-- What the call waits for is settled. -/
def clear (q : Queue κ) (e : Entry κ) : Bool :=
  e.previous.all fun p => q.entries[p]?.any fun f => f.phase = .settled

def enter [DecidableEq κ] (q : Queue κ) (k : κ) : Queue κ where
  entries := q.entries ++ [⟨k, q.tails k, .waiting⟩]
  tails := Function.update q.tails k (some q.entries.length)

def setPhase (q : Queue κ) (l : ℕ) (phase : Phase) : Queue κ :=
  { q with entries := q.entries.modify l fun e => { e with phase := phase } }

/-- What a call does next, if it may. -/
def next (q : Queue κ) (e : Entry κ) : Option Phase :=
  match e.phase with
  | .waiting => if q.clear e then some .working else none
  | .working => some .finished
  | .finished => if q.clear e then some .settled else none
  | .settled => none

def advance (q : Queue κ) (l : ℕ) : Option (Queue κ) :=
  (q.entries[l]?.bind q.next).map (q.setPhase l)

def forget [DecidableEq κ] (q : Queue κ) (l : ℕ) : Queue κ :=
  match q.entries[l]? with
  | none => q
  | some e =>
    if q.tails e.key = some l then { q with tails := Function.update q.tails e.key none } else q

/-- The calls of the key that came before. -/
def EndedBefore (q : Queue κ) (k : κ) (l : ℕ) : Prop :=
  ∀ j < l, ∀ f : Entry κ, q.entries[j]? = some f → f.key = k → f.phase.ended = true

/-- A queue as its operations leave it. -/
structure Ordered (q : Queue κ) : Prop where
  tail (k : κ) (t : ℕ) : q.tails k = some t → (∃ e, q.entries[t]? = some e ∧ e.key = k) ∧
    ∀ j > t, ∀ f : Entry κ, q.entries[j]? = some f → f.key ≠ k
  free (k : κ) : q.tails k = none → q.EndedBefore k q.entries.length
  alone (l : ℕ) (e : Entry κ) : q.entries[l]? = some e → e.previous = none → q.EndedBefore e.key l
  behind (l : ℕ) (e : Entry κ) (p : ℕ) : q.entries[l]? = some e → e.previous = some p → p < l ∧
    (∃ f, q.entries[p]? = some f ∧ f.key = e.key) ∧
    ∀ j, p < j → j < l → ∀ f : Entry κ, q.entries[j]? = some f → f.key ≠ e.key
  turn (l : ℕ) (e : Entry κ) : q.entries[l]? = some e → e.phase ≠ .waiting → q.EndedBefore e.key l

/-- One after the other: no two calls of one key work at a time. -/
theorem Ordered.one_working (h : q.Ordered) (he : q.entries[l]? = some e) (hf : q.entries[m]? = some f)
    (hkey : e.key = f.key) (hework : e.phase = .working) (hfwork : f.phase = .working) : l = m := by
  rcases Nat.lt_trichotomy l m with hlt | heq | hgt
  · have hended := h.turn m f hf (by simp [hfwork]) l hlt e he hkey
    rw [hework] at hended
    cases hended
  · exact heq
  · have hended := h.turn l e he (by simp [hework]) m hgt f hf hkey.symm
    rw [hfwork] at hended
    cases hended

theorem ordered_empty : ({} : Queue κ).Ordered where
  tail _ _ h := by cases h
  free _ _ _ _ _ h := by cases h
  alone _ _ h := by cases h
  behind _ _ _ h := by cases h
  turn _ _ h := by cases h

/-! ### Entering -/

theorem lt_of_getElem? (h : q.entries[l]? = some e) : l < q.entries.length :=
  (List.getElem_of_getElem? h).1

section
variable [DecidableEq κ]

theorem getElem?_enter : (q.enter k).entries[l]? =
    if l = q.entries.length then some ⟨k, q.tails k, .waiting⟩ else q.entries[l]? := by
  rw [enter]
  rcases Nat.lt_trichotomy l q.entries.length with hlt | heq | hgt
  · rw [List.getElem?_append_left hlt, if_neg (by omega)]
  · subst heq
    simp
  · rw [if_neg (by omega), List.getElem?_eq_none (by simp; omega), List.getElem?_eq_none (by omega)]

theorem endedBefore_enter (hl : l ≤ q.entries.length) (j : κ) :
    (q.enter k).EndedBefore j l ↔ q.EndedBefore j l := by
  refine forall₂_congr fun i hi => ?_
  rw [getElem?_enter, if_neg (by omega)]

theorem Ordered.enter (h : q.Ordered) (k : κ) : (q.enter k).Ordered where
  tail j t ht := by
    have hlength : (q.enter k).entries.length = q.entries.length + 1 := by simp [Queue.enter]
    by_cases hj : j = k
    · subst hj
      obtain rfl : q.entries.length = t := by simpa [Queue.enter] using ht
      refine ⟨⟨_, by rw [getElem?_enter, if_pos rfl], rfl⟩, fun i hi f hf => ?_⟩
      exact absurd (lt_of_getElem? hf) (by omega)
    · obtain ⟨⟨e, he, hkey⟩, hlast⟩ := h.tail j t (by simpa [Queue.enter, hj] using ht)
      have hlt := lt_of_getElem? he
      refine ⟨⟨e, by rw [getElem?_enter, if_neg (by omega), he], hkey⟩, fun i hi f hf => ?_⟩
      rw [getElem?_enter] at hf
      split at hf
      · cases hf
        exact fun heq => hj heq.symm
      · exact hlast i hi f hf
  free j hj i hi f hf hkey := by
    have hne : j ≠ k := by
      rintro rfl
      simp [Queue.enter] at hj
    rw [getElem?_enter] at hf
    split at hf
    · cases hf
      exact absurd hkey.symm hne
    · exact h.free j (by simpa [Queue.enter, hne] using hj) i (lt_of_getElem? hf) f hf hkey
  alone l e he hprevious := by
    rw [getElem?_enter] at he
    split at he
    · next hl =>
      cases he
      subst hl
      exact (endedBefore_enter le_rfl _).mpr (h.free k hprevious)
    · exact (endedBefore_enter (lt_of_getElem? he).le _).mpr (h.alone l e he hprevious)
  behind l e p he hprevious := by
    rw [getElem?_enter] at he
    split at he
    · next hl =>
      cases he
      subst hl
      obtain ⟨⟨f, hf, hkey⟩, hlast⟩ := h.tail k p hprevious
      have hlt := lt_of_getElem? hf
      refine ⟨hlt, ⟨f, by rw [getElem?_enter, if_neg (by omega), hf], hkey⟩, fun j hpj hjl g hg => ?_⟩
      rw [getElem?_enter, if_neg (by omega)] at hg
      exact hlast j hpj g hg
    · obtain ⟨hlt, ⟨f, hf, hkey⟩, hbetween⟩ := h.behind l e p he hprevious
      have hll := lt_of_getElem? he
      refine ⟨hlt, ⟨f, by rw [getElem?_enter, if_neg (by omega), hf], hkey⟩, fun j hpj hjl g hg => ?_⟩
      rw [getElem?_enter, if_neg (by omega)] at hg
      exact hbetween j hpj hjl g hg
  turn l e he hphase := by
    rw [getElem?_enter] at he
    split at he
    · cases he
      exact absurd rfl hphase
    · exact (endedBefore_enter (lt_of_getElem? he).le _).mpr (h.turn l e he hphase)

end

/-! ### The next phase -/

theorem getElem?_setPhase {phase : Phase} : (q.setPhase l phase).entries[m]? =
    if l = m then q.entries[m]?.map fun e => { e with phase := phase } else q.entries[m]? := by
  rw [setPhase, List.getElem?_modify]
  split <;> simp

/-- An entry of the advanced queue is the one it was, in its next phase if it is the one that advanced. -/
theorem advance_cases (h : q.advance l = some q') : ∃ e phase, q.entries[l]? = some e ∧
    q.next e = some phase ∧ q' = q.setPhase l phase := by
  simp only [advance, Option.map_eq_some_iff, Option.bind_eq_some_iff] at h
  obtain ⟨phase, ⟨e, he, hnext⟩, rfl⟩ := h
  exact ⟨e, phase, he, hnext, rfl⟩

/-- Who has ended stays ended. -/
theorem next_ended {phase : Phase} (h : q.next e = some phase) (hended : e.phase.ended = true) :
    phase.ended = true := by
  cases hphase : e.phase with
  | waiting => simp [hphase, Phase.ended] at hended
  | working => simp [hphase, Phase.ended] at hended
  | finished =>
    simp only [next, hphase, Option.ite_none_right_eq_some, Option.some.injEq] at h
    rw [← h.2]
    rfl
  | settled => simp [next, hphase] at h

theorem getElem?_advance (h : q.advance l = some q') {f' : Entry κ} (hf : q'.entries[m]? = some f') :
    ∃ f, q.entries[m]? = some f ∧ f'.key = f.key ∧ f'.previous = f.previous ∧
      (m ≠ l → f' = f) ∧ (f.phase.ended = true → f'.phase.ended = true) := by
  obtain ⟨e, phase, he, hnext, rfl⟩ := advance_cases h
  rw [getElem?_setPhase] at hf
  split at hf
  · next heq =>
    subst heq
    rw [he, Option.map_some] at hf
    cases hf
    exact ⟨e, he, rfl, rfl, fun hne => absurd rfl hne, next_ended hnext⟩
  · next hne => exact ⟨f', hf, rfl, rfl, fun _ => rfl, id⟩

theorem getElem?_of_advance (h : q.advance l = some q') (hf : q.entries[m]? = some f) :
    ∃ f', q'.entries[m]? = some f' ∧ f'.key = f.key := by
  obtain ⟨e, phase, he, -, rfl⟩ := advance_cases h
  rw [getElem?_setPhase, hf]
  split
  · exact ⟨_, rfl, rfl⟩
  · exact ⟨f, rfl, rfl⟩

theorem endedBefore_advance (h : q.advance l = some q') (hbefore : q.EndedBefore k m) :
    q'.EndedBefore k m := by
  intro j hj f' hf' hkey
  obtain ⟨f, hf, hsame, -, -, hended⟩ := getElem?_advance h hf'
  exact hended (hbefore j hj f hf (hsame.symm.trans hkey))

/-- Those before a call whose way is clear have all ended. -/
theorem Ordered.endedBefore_of_clear (h : q.Ordered) (he : q.entries[l]? = some e)
    (hclear : q.clear e = true) : q.EndedBefore e.key l := by
  cases hprevious : e.previous with
  | none => exact h.alone l e he hprevious
  | some p =>
    obtain ⟨hlt, ⟨f, hf, hkey⟩, hbetween⟩ := h.behind l e p he hprevious
    have hsettled : f.phase = .settled := by
      simpa [clear, hprevious, hf] using hclear
    intro j hj g hg hgkey
    rcases Nat.lt_trichotomy j p with hjp | rfl | hpj
    · exact h.turn p f hf (by simp [hsettled]) j hjp g hg (hgkey.trans hkey.symm)
    · cases hf.symm.trans hg
      rw [hsettled]
      rfl
    · exact absurd hgkey (hbetween j hpj hj g hg)

theorem Ordered.advance (h : q.Ordered) (hadvance : q.advance l = some q') : q'.Ordered where
  tail k t ht := by
    have htails : q'.tails = q.tails := by
      obtain ⟨_, _, -, -, rfl⟩ := advance_cases hadvance
      rfl
    rw [htails] at ht
    obtain ⟨⟨e, he, hkey⟩, hlast⟩ := h.tail k t ht
    obtain ⟨e', he', hsame⟩ := getElem?_of_advance hadvance he
    refine ⟨⟨e', he', hsame.trans hkey⟩, fun j hj f' hf' => ?_⟩
    obtain ⟨f, hf, hfkey, -⟩ := getElem?_advance hadvance hf'
    rw [hfkey]
    exact hlast j hj f hf
  free k hk := by
    obtain ⟨_, _, -, -, rfl⟩ := advance_cases hadvance
    have hlength : (q.setPhase l ‹_›).entries.length = q.entries.length := by simp [setPhase]
    rw [hlength]
    exact endedBefore_advance hadvance (h.free k hk)
  alone m e' he' hprevious := by
    obtain ⟨e, he, hkey, hsame, -⟩ := getElem?_advance hadvance he'
    rw [hkey]
    exact endedBefore_advance hadvance (h.alone m e he (hsame.symm.trans hprevious))
  behind m e' p he' hprevious := by
    obtain ⟨e, he, hkey, hsame, -⟩ := getElem?_advance hadvance he'
    obtain ⟨hlt, ⟨f, hf, hfkey⟩, hbetween⟩ := h.behind m e p he (hsame.symm.trans hprevious)
    obtain ⟨f', hf', hfsame⟩ := getElem?_of_advance hadvance hf
    refine ⟨hlt, ⟨f', hf', by rw [hfsame, hfkey, hkey]⟩, fun j hpj hjm g' hg' => ?_⟩
    obtain ⟨g, hg, hgkey, -⟩ := getElem?_advance hadvance hg'
    rw [hgkey, hkey]
    exact hbetween j hpj hjm g hg
  turn m e' he' hphase := by
    obtain ⟨e, he, hkey, -, hother, -⟩ := getElem?_advance hadvance he'
    rw [hkey]
    refine endedBefore_advance hadvance ?_
    by_cases hm : m = l
    · subst hm
      by_cases hwaits : e.phase = .waiting
      · obtain ⟨e₀, phase, he₀, hnext, -⟩ := advance_cases hadvance
        cases he.symm.trans he₀
        simp only [next, hwaits, Option.ite_none_right_eq_some] at hnext
        exact h.endedBefore_of_clear he hnext.1
      · exact h.turn m e he hwaits
    · rw [hother hm] at hphase
      exact h.turn m e he hphase

/-! ### Progress -/

/-- Somebody of the key can go on, as long as somebody has not been settled: by induction on the place,
    the call itself or the one that it waits for. -/
theorem Ordered.next_step (h : q.Ordered) (he : q.entries[l]? = some e) (hne : e.phase ≠ .settled) :
    ∃ m ≤ l, ∃ f, q.entries[m]? = some f ∧ f.key = e.key ∧ (q.next f).isSome = true := by
  induction l using Nat.strongRecOn generalizing e with
  | ind l ih =>
    by_cases hnext : (q.next e).isSome = true
    · exact ⟨l, le_rfl, e, he, rfl, hnext⟩
    · have hblocked : q.clear e = false := by
        by_contra hclear
        rw [Bool.not_eq_false] at hclear
        refine hnext ?_
        cases hphase : e.phase with
        | waiting => simp [next, hphase, hclear]
        | working => simp [next, hphase]
        | finished => simp [next, hphase, hclear]
        | settled => exact absurd hphase hne
      cases hprevious : e.previous with
      | none => simp [clear, hprevious] at hblocked
      | some p =>
        obtain ⟨hlt, ⟨f, hf, hkey⟩, -⟩ := h.behind l e p he hprevious
        have hunsettled : f.phase ≠ .settled := by
          simpa [clear, hprevious, hf] using hblocked
        obtain ⟨m, hm, g, hg, hgkey, hstep⟩ := ih p hlt hf hunsettled
        exact ⟨m, hm.trans hlt.le, g, hg, hgkey.trans hkey, hstep⟩

def left (q : Queue κ) : ℕ := (q.entries.map fun e => e.phase.left).sum

theorem sum_modify {entries : List (Entry κ)} {phase : Phase} (he : entries[l]? = some e) :
    ((entries.modify l fun e => { e with phase := phase }).map fun e => e.phase.left).sum +
      e.phase.left = (entries.map fun e => e.phase.left).sum + phase.left := by
  induction entries generalizing l with
  | nil => cases he
  | cons f entries ih =>
    cases l with
    | zero =>
      cases he
      simp only [List.modify_zero_cons, List.map_cons, List.sum_cons]
      omega
    | succ l =>
      have htail := ih (l := l) he
      simp only [List.modify_succ_cons, List.map_cons, List.sum_cons]
      omega

theorem left_advance (h : q.advance l = some q') : q'.left < q.left := by
  obtain ⟨e, phase, he, hnext, rfl⟩ := advance_cases h
  have hsum := @sum_modify κ l e q.entries phase he
  have hless : phase.left < e.phase.left := by
    cases hphase : e.phase with
    | waiting =>
      simp only [next, hphase, Option.ite_none_right_eq_some, Option.some.injEq] at hnext
      rw [← hnext.2]
      decide
    | working =>
      simp only [next, hphase, Option.some.injEq] at hnext
      rw [← hnext]
      decide
    | finished =>
      simp only [next, hphase, Option.ite_none_right_eq_some, Option.some.injEq] at hnext
      rw [← hnext.2]
      decide
    | settled => simp [next, hphase] at hnext
  show (List.map _ (List.modify _ _ _)).sum < _
  rw [left]
  omega

/-! ### Forgetting -/

section
variable [DecidableEq κ]

theorem forget_entries : (q.forget l).entries = q.entries := by
  rw [forget]
  split
  · rfl
  · split <;> rfl

theorem forget_tails (he : q.entries[l]? = some e) (j : κ) : (q.forget l).tails j =
    if j = e.key ∧ q.tails j = some l then none else q.tails j := by
  simp only [forget, he]
  split
  · next htail =>
    by_cases hkey : j = e.key
    · subst hkey
      simp [htail]
    · simp [hkey]
  · next htail =>
    rw [if_neg]
    rintro ⟨rfl, h⟩
    exact htail h

/-- Who has ended may be forgotten: everybody before has ended too. -/
theorem Ordered.forget (h : q.Ordered) (he : q.entries[l]? = some e) (hended : e.phase.ended = true) :
    (q.forget l).Ordered := by
  have hbefore : ∀ j m, (q.forget l).EndedBefore j m ↔ q.EndedBefore j m := fun j m => by
    rw [EndedBefore, EndedBefore, forget_entries]
  refine ⟨fun j t hj => ?_, fun j hj => ?_, fun m f hf => ?_, fun m f => ?_, fun m f hf => ?_⟩
  · rw [forget_tails he, Option.ite_none_left_eq_some] at hj
    rw [forget_entries]
    exact h.tail j t hj.2
  · rw [hbefore, forget_entries]
    rw [forget_tails he] at hj
    split at hj
    · next htail =>
      obtain ⟨rfl, htail⟩ := htail
      obtain ⟨-, hlast⟩ := h.tail e.key l htail
      intro i hi f hf hfkey
      rcases Nat.lt_trichotomy i l with hil | rfl | hli
      · have hstarted : e.phase ≠ .waiting := by
          intro hwaits
          rw [hwaits] at hended
          cases hended
        exact h.turn l e he hstarted i hil f hf hfkey
      · cases he.symm.trans hf
        exact hended
      · exact absurd hfkey (hlast i hli f hf)
    · exact h.free j hj
  · rw [forget_entries] at hf
    rw [hbefore]
    exact h.alone m f hf
  · rw [forget_entries]
    exact h.behind m f
  · rw [forget_entries] at hf
    rw [hbefore]
    exact h.turn m f hf

end

end Queue
end Lanes
