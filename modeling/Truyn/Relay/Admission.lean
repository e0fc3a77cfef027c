import Truyn.Relay.Heap

/-! relay:admission | a relay dispatches a NEED at most once

    A handler that was let through `admitDirectNeedId` holds a token for its NEED id until it
    dispatches the NEED. Tokens held and spent never exceed the allowance of the id: how often it is
    in `seenNeedIds`, or how often the ledger reserved it. Neither is ever more than one. -/

namespace Truyn.Relay
open Async Cas
open Ledger (Fault NeedStatus Time Awaited Book Call execute reservations)

variable {o : Options} {i : Input} {t : Option Task} {w w' : World}

/-! ### What outputs count -/

/-- How many outputs of a kind left the relay. -/
def World.sent (w : World) (P : Output → Bool) : ℕ := w.log.countP P

theorem sent_emit (w : World) (out : Output) (P : Output → Bool) :
    (w.emit out).sent P = w.sent P + if P out then 1 else 0 :=
  List.countP_cons

/-- Bookkeeping sends nothing but minor outputs. -/
theorem Quiet.sent (h : Quiet w w') {P : Output → Bool} (hP : ∀ out, out.minor → P out = false) :
    w'.sent P = w.sent P := by
  obtain ⟨l, hl, hm⟩ := h.log
  have hz : l.countP P = 0 := List.countP_eq_zero.mpr fun out hout => by simp [hP out (hm out hout)]
  rw [World.sent, hl, List.countP_append, hz, Nat.zero_add, World.sent]

theorem closeChain_sent (w : World) (chain : Ref) (status : ℕ) (now : Time) {P : Output → Bool}
    (hP : ∀ out, out.minor → P out = false) : (closeChain w chain status now).sent P = w.sent P := by
  rw [(quiet_closeChain w chain status now).sent hP, World.sent, (closing_same w chain status now).1,
    World.sent]

/-! ### Tokens -/

/-- A NEED that is handed over for dispatch. -/
def Output.needs (id : Id) : Output → Bool
  | .sent _ (.NEED id' _) _ => id' = id
  | _ => false

theorem needs_minor (id : Id) (out : Output) (h : out.minor) : out.needs id = false := by
  cases out with
  | sent n ev tr => cases ev <;> first | rfl | cases h
  | _ => rfl

/-- How often a NEED was dispatched. -/
def dispatches (id : Id) (w : World) : ℕ := w.sent (Output.needs id)

/-- A handler that was let through and has not dispatched yet. -/
def admitting (id : Id) : Task → ℕ
  | .resume a k => if a.failed = false ∧ k.admits = some id then 1 else 0
  | _ => 0

/-- How often the ledger, or the relay itself, let a NEED id through. -/
def allowance (id : Id) (w : World) : ℕ :=
  match w.ledger with
  | none => w.seenNeedIds.count id
  | some b => reservations (some b) id

theorem admitting_none {id : Id} {a : Awaited} {k : Cont} (h : k.admits = none) :
    admitting id (.resume a k) = 0 := by
  simp [admitting, h]

theorem admits_of_asks {k : Cont} (h : k.asks = false) : k.admits = none := by
  cases k <;> first | rfl | cases h

/-- A segment that leaves log, ledger and seen ids alone needs no token. -/
theorem covered_plain {id : Id} {ts : List Task} (hd : dispatches id w' = dispatches id w)
    (hl : w'.ledger = w.ledger) (hs : w'.seenNeedIds = w.seenNeedIds)
    (hts : ∀ x ∈ ts, admitting id x = 0) :
    Covered (admitting id) (dispatches id) (allowance id) w t w' ts := by
  refine covered_idle hd.le ?_ hts
  rw [allowance, allowance, hl, hs]

theorem Wait.admitting_zero {s : Step} (h : Wait o w s) (id : Id) : ∀ x ∈ s.2, admitting id x = 0 := by
  intro x hx
  have hb := (h.born x hx).2
  cases x with
  | resume a k => exact admitting_none hb.2.2
  | _ => rfl

theorem allowance_ledger (hl : w.ledger.isSome) (id : Id) :
    allowance id w = reservations w.ledger id := by
  obtain ⟨b, hb⟩ := Option.isSome_iff_exists.mp hl
  rw [allowance, hb]

theorem exec_allowance (w : World) (c : Call) (about : Id) (now : Time) (id : Id) :
    allowance id w ≤ allowance id (execCall w c about now).1 := by
  cases hl : w.ledger with
  | none => simp only [allowance, execCall, execute, hl, le_refl]
  | some b =>
    have hs : w.ledger.isSome := by rw [hl]; rfl
    have hs' := (Ledger.execute_isSome w.ledger c about now).trans hs
    rw [allowance_ledger hs, allowance_ledger (w := (execCall w c about now).1) hs']
    exact Ledger.execute_reservations _ _ _ _ _

/-- A call that lets a NEED id through enlarges its allowance. -/
theorem exec_admitting {c : Call} {k : Cont} (hl : w.ledger.isSome) (hc : Asked w c k)
    (now : Time) (id : Id) :
    admitting id (.resume (execCall w c [] now).2 k) + allowance id w ≤
      allowance id (execCall w c [] now).1 := by
  have hgrow := exec_allowance w c [] now id
  by_cases hk : (execCall w c [] now).2.failed = false ∧ k.admits = some id
  · have hreserve : ∃ c', c = .reserveNeed c' ∧ c'.id = id := by
      have := hk.2
      cases k <;> cases this <;> exact hc _ rfl
    obtain ⟨c', rfl, rfl⟩ := hreserve
    have hs := (Ledger.execute_isSome w.ledger (.reserveNeed c') [] now).trans hl
    have hcap := allowance_ledger hl c'.id
    have hcap' : allowance c'.id (execCall w (.reserveNeed c') [] now).1 = _ :=
      allowance_ledger hs c'.id
    have hmore := Ledger.execute_reserve hk.1
    rw [admitting, if_pos hk, hcap, hcap', execCall, ← hmore, Nat.add_comm]
  · simpa only [admitting, hk, if_false, Nat.zero_add] using hgrow

/-- TOKENS: what a segment dispatches and lets through is covered. -/
theorem Segment.admission {s : Step} (ht : ∀ x ∈ t, Fits o w x) (h : Segment o i t w s) (id : Id) :
    Covered (admitting id) (dispatches id) (allowance id) w t s.1 s.2 := by
  have hm := needs_minor id
  cases h with
  | wait h => exact covered_plain (h.quiet.sent hm) h.quiet.ledger h.quiet.seen (h.admitting_zero id)
  | adopted _ _ h => exact covered_plain (h.quiet.sent hm) h.quiet.ledger h.quiet.seen (h.admitting_zero id)
  | expired ht' _ h =>
    refine covered_plain (h.sent hm) h.ledger h.seen fun x hx => ?_
    obtain rfl := List.mem_singleton.mp hx
    exact admitting_none (not_asks_of_checks (ht _ ht').shape.2.2).2.2
  | @remembered w₁ w' k id' hk hl h₁ hfresh _ h₂ =>
    have hd : dispatches id w' = dispatches id w := (h₂.sent hm).trans (h₁.sent hm)
    have hl' : w'.ledger = none := h₂.ledger.trans (h₁.ledger.trans hl)
    have hs : w'.seenNeedIds = w.seenNeedIds ++ [id'] := by
      rw [h₂.seen, World.remember, h₁.seen]
    rw [Covered, hd, allowance, allowance, hl, hl', hs]
    simp only [held_cons, held_nil, admitting, Awaited.failed, hk, List.count_append,
      List.count_singleton, true_and, Option.some.injEq]
    by_cases hid : id' = id
    · simp [hid]
      omega
    · simp [hid]
  | @dispatched a k q tr w' ht' ha hk _ _ h =>
    have hd : dispatches id w' = dispatches id w + if q.needId = id then 1 else 0 := by
      rw [dispatches, h.sent hm, sent_emit]
      simp only [Output.needs, decide_eq_true_eq]
      rfl
    have hc : allowance id w' = allowance id w := by
      rw [allowance, allowance, h.ledger, h.seen]; rfl
    rw [Covered, hd, hc, ht']
    simp only [held_nil, holds?_some, admitting, ha, hk, true_and, Option.some.injEq]
    omega
  | completedStage _ _ _ _ _ _ _ h =>
    exact covered_plain (h.sent hm) h.ledger h.seen (by simp [admitting, Cont.admits])
  | completedLegacyStage _ _ _ h =>
    exact covered_plain (h.sent hm) h.ledger h.seen (by simp [admitting, Cont.admits])
  | @completed _ k _ _ _ _ _ _ hc h =>
    refine covered_plain (h.sent hm) h.ledger h.seen ?_
    cases k <;> cases hc <;> simp [admitting, Cont.admits]
  | delivered _ _ _ h => exact covered_plain (h.sent hm) h.ledger h.seen (by simp)
  | entered _ h₁ _ _ _ _ _ _ h₂ hts =>
    refine covered_plain ((h₂.sent hm).trans (h₁.sent hm)) (h₂.ledger.trans h₁.ledger)
      (h₂.seen.trans h₁.seen) ?_
    rcases hts with ⟨-, rfl⟩ | ⟨-, rfl⟩ <;> simp [admitting, Cont.admits]
  | closed _ h =>
    exact covered_plain ((h.sent hm).trans (closeChain_sent _ _ _ _ hm))
      (h.ledger.trans (closeChain_ledger _ _ _ _)) (h.seen.trans (closeChain_seen _ _ _ _)) (by simp)
  | stageSent _ _ h₁ _ h₂ =>
    exact covered_plain ((h₂.sent hm).trans (h₁.sent hm)) (h₂.ledger.trans h₁.ledger)
      (h₂.seen.trans h₁.seen) (by simp)
  | stored _ _ _ _ hw₁ hts =>
    subst hw₁
    rcases hts with ⟨_, _, h, rfl⟩ | ⟨h, rfl⟩
    · exact covered_plain ((h.sent hm).trans (closeChain_sent _ _ _ _ hm))
        (h.ledger.trans (closeChain_ledger _ _ _ _)) (h.seen.trans (closeChain_seen _ _ _ _))
        (by simp)
    · exact covered_plain (h.sent hm) h.ledger h.seen (by simp [admitting, Cont.admits])
  | cancelled _ _ h => exact covered_plain (h.sent hm) h.ledger h.seen (by simp)
  | streamed _ _ _ h => exact covered_plain (h.sent hm) h.ledger h.seen (by simp)
  | spilled _ _ _ h => exact covered_plain (h.sent hm) h.ledger h.seen (by simp)
  | repeated _ _ _ h => exact covered_plain (h.sent hm) h.ledger h.seen (by simp)
  | refused _ _ _ _ h => exact covered_plain (h.sent hm) h.ledger h.seen (by simp)
  | refusedByLedger _ _ h => exact covered_plain (h.sent hm) h.ledger h.seen (by simp)
  | @executed c k a now ht' ha =>
    obtain ⟨hl, -, hc⟩ := ht _ ht'
    have hd : dispatches id (execCall w c [] now).1 = dispatches id w := rfl
    have hcap := exec_allowance w c [] now id
    simp only [Covered, hd, held_cons, held_nil]
    rcases ha with ⟨-, rfl⟩ | ⟨f, rfl, -⟩
    · have := exec_admitting hl hc now id
      omega
    · simp only [admitting, Awaited.failed]
      simp
      omega
  | dropped ht' _ hts =>
    refine covered_plain rfl rfl rfl fun x hx => ?_
    rcases List.mem_cons.mp hx with rfl | hx
    · simp [admitting, Awaited.failed]
    · rcases hts with rfl | rfl
      · exact absurd hx List.not_mem_nil
      · obtain rfl := List.mem_singleton.mp hx
        rfl
  | read ht' _ =>
    refine covered_plain rfl rfl rfl fun x hx => ?_
    obtain rfl := List.mem_singleton.mp hx
    exact admitting_none (admits_of_asks (ht _ ht').2.2.1)
  | @peer c about now _ =>
    have hd : dispatches id (execCall w c about now).1 = dispatches id w := rfl
    have hcap := exec_allowance w c about now id
    simp only [Covered, hd, held_nil]
    omega
  | timeout _ _ _ =>
    exact covered_plain (closeChain_sent _ _ _ _ hm) (closeChain_ledger _ _ _ _)
      (closeChain_seen _ _ _ _) (by simp)

/-- ADMISSION: in every run a relay dispatches a NEED no more often than it was let through,
    whatever other processes do with its ledger. -/
theorem dispatches_le (ledger : Option Book) (hl : ∀ b ∈ ledger, ∀ id, b id = [])
    {s : Sys World Task} (h : Runs (machine o) free (init ledger) s) (id : Id) :
    Sane o s.shared ∧ dispatches id s.shared ≤ allowance id s.shared := by
  have h0 := holds_init o hl
  have hb := Runs.within (sane_sound o free) (admitting id) (dispatches id) (allowance id)
    (fun w t x w' ts hw ht _ hM =>
      (segment_of_machine hw.wf ht hM).admission ht id) h h0 (by simp [init, World.start,
        dispatches, World.sent])
  exact ⟨(h.sound (sane_sound o free) h0).1, by omega⟩

end Truyn.Relay
