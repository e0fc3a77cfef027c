import Truyn.Relay.Bookings

/-! relay:accounts | the reservations of a requester are those that its fast requests hold

    `fastTerminalReservations` counts the matched fast requests that hold a reservation, the
    admissions that have taken one and not finished, and the requests whose RESULT step has set the
    status and is about to give the reservation back. Status polls, legacy RESULTs, the ends of
    chains, evictions and a refusal after the admission do not keep these books (`Booked`). -/

namespace Truyn.Relay
open Async Cas
open Ledger (NeedStatus Time Record Awaited Book)

variable {o : Options} {e : Env o} {i : Input} {t : Option Task} {w w' : World} {s : Step}

/-- The matched fast requests of a node that hold a reservation. -/
def World.reserved (w : World) (n : Id) : ℕ :=
  w.objs.countP fun q => q.mode = .fast ∧ q.requester = n ∧ q.status = .matched ∧ q.terminalReserved

/-- The requests of a node that have ended and hold a reservation. -/
def World.overdue (w : World) (n : Id) : ℕ :=
  w.objs.countP fun q => q.requester = n ∧ q.status ≠ .matched ∧ q.terminalReserved

/-- A matched request that holds a reservation. -/
def World.leased (w : World) (r : Ref) : Bool :=
  (w.objs[r]?).any fun q => q.terminalReserved ∧ q.status = .matched

/-- The request whose status a segment sets without a look at its reservation: by a status poll that
    takes over the ledger's status, by a legacy RESULT, or at the end of a chain. -/
def overwrites (e : Env o) (w : World) (i : Input) : Option Task → Option Ref
  | some (.resume (.record (some d)) (.statusRead _ _ r)) =>
    if d.status = .matched then none else some r
  | some (.resume a (.legacyResultCommitted _ r)) => if a.failed then none else some r
  | t => (ending e w i t).bind w.pending

/-- The requester and the id of a fast NEED whose admission goes on. -/
def admitted : Option Task → Option (Id × Id)
  | some (.resume a (.fastNeedAdmitted requester frame _ _)) =>
    if a.failed then none else some (requester, frame.i)
  | _ => none

/-- The reservation of `n` that an admission forgets: its id was taken while it was under way. -/
def leaks (w : World) (n : Id) (t : Option Task) : ℕ :=
  if (admitted t).any fun p => w.hasRequest p.2 ∧ p.1 = n then 1 else 0

/-- The node that is evicted. -/
def Input.evicts : Input → Option Id
  | .evict n => some n
  | _ => none

/-- A segment that keeps the books: it ends no request that holds a reservation but by a RESULT, a
    REVOKE or an expiry check, an admission finds its id free, and a node that is evicted has no
    reservations. -/
def Booked (w : World) (t : Option Task) (x : Input × Env o) : Prop :=
  (∀ r ∈ overwrites x.2 w x.1 t, w.leased r = false) ∧
    (∀ p ∈ admitted t, w.hasRequest p.2 = false) ∧
    ∀ n ∈ x.1.evicts, w.fastTerminalReservations n = 0

instance (w : World) (t : Option Task) (x : Input × Env o) : Decidable (Booked w t x) := by
  unfold Booked; infer_instance

theorem admitted_eq {p : Id × Id} (h : admitted t = some p) : ∃ a frame waitMs provider,
    t = some (.resume a (.fastNeedAdmitted p.1 frame waitMs provider)) ∧ a.failed = false ∧
      p.2 = frame.i := by
  unfold admitted at h
  split at h
  · next a requester frame waitMs provider =>
    cases ha : a.failed with
    | true => simp [ha] at h
    | false =>
      simp only [ha, Bool.false_eq_true, if_false] at h
      cases h
      exact ⟨a, frame, waitMs, provider, rfl, ha, rfl⟩
  · cases h

theorem leaks_le (w : World) (n : Id) (t : Option Task) : leaks w n t ≤ holds? (reserving n) t := by
  unfold leaks
  split
  · next h =>
    obtain ⟨p, hp, hd⟩ := (Option.any_eq_true _ _).mp h
    obtain ⟨a, frame, waitMs, provider, rfl, -, -⟩ := admitted_eq hp
    obtain ⟨-, rfl⟩ := of_decide_eq_true hd
    simp [reserving, Task.cont, Cont.reserves]
  · exact Nat.zero_le _

theorem leaks_zero {n : Id} (h : holds? (reserving n) t = 0) : leaks w n t = 0 :=
  Nat.le_zero.mp (h ▸ leaks_le w n t)

theorem leaks_plain {n : Id} (h : ∀ a k, t = some (.resume a k) → k.reserves = none) :
    leaks w n t = 0 := by
  cases hp : admitted t with
  | none => simp [leaks, hp]
  | some p =>
    obtain ⟨a, frame, waitMs, provider, ht, -⟩ := admitted_eq hp
    cases h _ _ ht

theorem holding_mark (w : World) (q : Request) (n : Id) :
    (w.markMatchedRequest q).holding n = w.holding n + (q.holds n).toNat := by
  simp only [World.markMatchedRequest, World.holding, World.setInFlight, List.countP_append,
    List.countP_singleton]
  cases q.holds n <;> rfl

theorem holding_setStatus (w : World) (r : Ref) (status : NeedStatus) (n : Id) :
    (w.setStatus r status).holding n = w.holding n := by
  cases hq : w.objs[r]? with
  | none => rw [World.setStatus, World.modify, List.modify_eq_self (by simpa using hq)]
  | some q =>
    have := countP_modify (Request.holds n) (fun q => { q with status := status }) w.objs r hq
    simp only [Request.holds] at this
    simp only [World.setStatus, World.modify, World.holding]
    exact Nat.add_right_cancel this

theorem Same.holding (h : Same w w') (n : Id) : w'.holding n = w.holding n := by
  rw [World.holding, World.holding, h.objs]

variable {r : Ref} {q : Request}

/-! ### The delivery of a RESULT -/

/-- The delivery of a RESULT gives the reservation back, whatever becomes of the event. -/
theorem deliver_books {p : Id} (frame : Frame) :
    (deliverFastResult o e w p frame r).2 = [] ∧
    (deliverFastResult o e w p frame r).1.objs = (w.releaseFastTerminal r).objs ∧
    (deliverFastResult o e w p frame r).1.fastTerminalReservations =
      (w.releaseFastTerminal r).fastTerminalReservations := by
  unfold deliverFastResult
  simp only
  split
  · next h =>
    rw [World.releaseFastTerminal, h]
    exact ⟨rfl, rfl, rfl⟩
  have hf := same_finish (w.releaseFastTerminal r)
  split
  · exact ⟨rfl, (hf _).objs, (hf _).reservations⟩
  have hq : ∀ n ev, ((w.releaseFastTerminal r).queueFastTerminal o e n ev).1.objs =
      (w.releaseFastTerminal r).objs ∧ ((w.releaseFastTerminal r).queueFastTerminal o e n
        ev).1.fastTerminalReservations = (w.releaseFastTerminal r).fastTerminalReservations := by
    intro n ev
    unfold World.queueFastTerminal
    split
    · exact ⟨rfl, rfl⟩
    split
    · exact ⟨rfl, rfl⟩
    split <;> exact ⟨rfl, rfl⟩
  split
  · exact ⟨rfl, (hq _ _).1, (hq _ _).2⟩
  · exact ⟨rfl, (hq _ _).1, (hq _ _).2⟩

theorem release_unleased (h : (w.releaseFastTerminal r).objs[r]? = some q) :
    q.terminalReserved = false := by
  unfold World.releaseFastTerminal at h
  split at h
  · next hn => cases hn.symm.trans h
  · split at h
    · obtain ⟨q₁, -, ⟨-, rfl⟩ | ⟨hne, -⟩⟩ := get_modify (w := w) h
      · rfl
      · exact absurd rfl hne
    · next hq hf =>
      cases hq.symm.trans h
      simpa using hf

/-! ### One segment -/

/-- BALANCE: reservations and their holders change by the same amount, but for leaks. -/
theorem Booking.balance (h : Booking o e i t w s)
    (hle : ∀ n, w.holding n + holds? (reserving n) t ≤ w.fastTerminalReservations n)
    (hev : ∀ n ∈ i.evicts, w.fastTerminalReservations n = 0) (n : Id) :
    s.1.fastTerminalReservations n + (w.holding n + holds? (reserving n) t) =
      w.fastTerminalReservations n + (s.1.holding n + held (reserving n) s.2) + leaks w n t := by
  have hn := hle n
  have hmarked : ∀ {r status} {u : Step}, Idle Calm (w.setStatus r status) u →
      holds? (reserving n) t = 0 →
      u.1.fastTerminalReservations n + (w.holding n + holds? (reserving n) t) =
        w.fastTerminalReservations n + (u.1.holding n + held (reserving n) u.2) + leaks w n t := by
    intro r status u hu h0
    have hh := holding_setStatus w r status n
    have he := hu.rel.even n (by rw [hh]; exact (Nat.le_add_right _ _).trans hn)
    have hR : (w.setStatus r status).fastTerminalReservations = w.fastTerminalReservations := rfl
    rw [hh, hR] at he
    rw [hu.unheld n, h0, leaks_zero h0]
    omega
  cases h with
  | plain hc ht hk _ =>
    have := hc.even n (by omega)
    rw [ht n, leaks_plain hk]
    omega
  | @reserved a requester frame waitMs provider u ht hroom hs hx =>
    obtain ⟨x, hx, hk⟩ := hx
    subst ht
    rw [hs.holding n, hs.reservations, hx]
    have h0 : holds? (reserving n) (some (.resume a (.fastNeedSwept requester frame waitMs
      provider))) = 0 := rfl
    rw [h0, leaks_zero h0]
    simp only [World.setReservations, Function.update_apply, held_cons, held_nil, reserving, hk,
      Cont.reserves, Option.some.injEq, World.holding]
    by_cases hr : n = requester
    · subst hr
      simp only [if_true]
      omega
    · rw [if_neg hr, if_neg (Ne.symm hr)]
      omega
  | @refunded f requester frame waitMs provider v ht hs =>
    subst ht
    rw [hs.holding n, hs.reservations]
    have h0 : leaks w n (some (.resume (.fault f) (.fastNeedAdmitted requester frame waitMs
      provider))) = 0 := rfl
    simp only [holds?_some, reserving, Task.cont, Cont.reserves, Option.some.injEq] at hn
    simp only [h0, World.unreserveFastTerminal, World.setReservations, Function.update_apply,
      held_nil, holds?_some, reserving, Task.cont, Cont.reserves, Option.some.injEq, World.holding]
    simp only [World.holding] at hn
    by_cases hr : n = requester
    · subst hr
      simp only [if_true] at hn ⊢
      omega
    · rw [if_neg hr]
      rw [if_neg (Ne.symm hr)] at hn ⊢
      omega
  | @leaked a requester frame waitMs provider v ht ha hid hs =>
    subst ht
    rw [hs.holding n, hs.reservations]
    simp only [leaks, admitted, ha, hid, true_and, held_nil, holds?_some, reserving, Task.cont,
      Cont.reserves, Option.some.injEq, Bool.false_eq_true, if_false, Option.any_some,
      decide_eq_true_eq]
    omega
  | @dispatched a requester frame waitMs provider v ht hid hs =>
    subst ht
    rw [hs.holding n, hs.reservations, holding_mark]
    have h0 : leaks w n (some (.resume a (.fastNeedAdmitted requester frame waitMs
      provider))) = 0 := by cases ha : a.failed <;> simp [leaks, admitted, ha, hid]
    rw [h0, held_nil, holds?_some]
    have hR : ∀ q, (w.markMatchedRequest q).fastTerminalReservations =
      w.fastTerminalReservations := fun _ => rfl
    rw [hR]
    have hq : (newRequest frame.i requester provider (frame.capability.getD []) e.now .fast
        none).holds n = decide (requester = n) := by simp [Request.holds, newRequest]
    rw [hq, reserving]
    simp only [Task.cont, Cont.reserves, Option.some.injEq]
    by_cases hr : requester = n
    · simp only [hr, decide_true, Bool.toNat_true, if_true]
      omega
    · simp only [hr, decide_false, Bool.toNat_false, if_false]
      omega
  | adopted ht _ hu => exact hmarked hu (by subst ht; rfl)
  | @completed a p frame r v ht hc =>
    have h0 : holds? (reserving n) t = 0 := by subst ht; rfl
    exact hmarked (u := (v, [])) (idle_nil hc) h0
  | completedLegacy ht _ hu => exact hmarked hu (by subst ht; rfl)
  | staged h0 _ _ _ hu => exact hmarked hu (h0 n)
  | closed hc _ hu => exact hmarked hu (ending_reserves hc n)
  | @delivered a p frame r ht ha =>
    obtain ⟨htasks, hobjs, hres⟩ := deliver_books (o := o) (e := e) (w := w) (p := p)
      frame (r := r)
    have h0 : holds? (reserving n) t = 0 := by subst ht; rfl
    have hc := (calm_release w r).even n (by omega)
    have hh : (deliverFastResult o e w p frame r).1.holding n =
        (w.releaseFastTerminal r).holding n := by rw [World.holding, hobjs, World.holding]
    rw [htasks, hh, hres, h0, leaks_zero h0, held_nil]
    omega
  | taken _ ht =>
    subst ht
    rfl
  | @evicted m hi ht =>
    subst ht
    have h0 : w.fastTerminalReservations m = 0 := hev m (by rw [hi]; rfl)
    have hu : (evict w m).holding n = w.holding n := rfl
    change Function.update w.fastTerminalReservations m 0 n + (w.holding n + 0) =
      w.fastTerminalReservations n + ((evict w m).holding n + 0) + 0
    rw [hu, Function.update_apply]
    split
    · next hr =>
      subst hr
      omega
    · rfl

/-- A request that has ended and still holds its reservation. -/
def World.owes (w : World) (r : Ref) : Prop :=
  ∃ q : Request, w.objs[r]? = some q ∧ q.terminalReserved ∧ q.status ≠ .matched

/-- Only fast requests hold reservations. -/
def World.fastOnly (w : World) : Prop :=
  ∀ (r : Ref) (q : Request), w.objs[r]? = some q → q.terminalReserved → q.mode = .fast

theorem Calm.fastOnly (h : Calm w w') (hw : w.fastOnly) : w'.fastOnly := fun r q' hq' hr' => by
  obtain ⟨q, hq, hr, hm, -⟩ := h.reserved r q' hq' hr'
  exact hm ▸ hw r q hq hr

theorem Calm.owes (h : Calm w w') (ho : w'.owes r) : w.owes r := by
  obtain ⟨q', hq', hr', hs'⟩ := ho
  obtain ⟨q, hq, hr, -, -, hs⟩ := h.reserved r q' hq' hr'
  exact ⟨q, hq, hr, fun hm => hs' (hs hm)⟩

theorem fastOnly_setStatus (hw : w.fastOnly) (r : Ref) (status : NeedStatus) :
    (w.setStatus r status).fastOnly := fun s q' hq' hr' => by
  obtain ⟨q, hq, ⟨-, rfl⟩ | ⟨-, rfl⟩⟩ := get_modify hq'
  · exact hw s q hq hr'
  · exact hw s _ hq hr'

theorem owes_setStatus {s : Ref} {status : NeedStatus} (ho : (w.setStatus r status).owes s) :
    w.owes s ∨ (s = r ∧ w.leased r) := by
  obtain ⟨q', hq', hr', hs'⟩ := ho
  obtain ⟨q, hq, ⟨rfl, rfl⟩ | ⟨-, rfl⟩⟩ := get_modify hq'
  · by_cases hm : q.status = .matched
    · exact .inr ⟨rfl, by simp [World.leased, hq, hm, show q.terminalReserved = true from hr']⟩
    · exact .inl ⟨q, hq, hr', hm⟩
  · exact .inl ⟨_, hq, hr', hs'⟩

theorem fastOnly_mark (hw : w.fastOnly) (hq : q.mode = .fast) :
    (w.markMatchedRequest q).fastOnly := fun s q' hq' hr' => by
  rw [World.markMatchedRequest, List.getElem?_append] at hq'
  split at hq'
  · exact hw s q' hq' hr'
  · obtain rfl := List.mem_singleton.mp (List.mem_of_getElem? hq')
    exact hq

theorem owes_mark (hm : q.status = .matched) (ho : (w.markMatchedRequest q).owes r) : w.owes r := by
  obtain ⟨q', hq', hr', hs'⟩ := ho
  rw [World.markMatchedRequest, List.getElem?_append] at hq'
  split at hq'
  · exact ⟨q', hq', hr', hs'⟩
  · obtain rfl := List.mem_singleton.mp (List.mem_of_getElem? hq')
    exact absurd hm hs'

theorem Booking.fastOnly (h : Booking o e i t w s) (hw : w.fastOnly) : s.1.fastOnly := by
  cases h with
  | plain h => exact h.fastOnly hw
  | reserved _ _ h | refunded _ h | leaked _ _ _ h => exact h.calm.fastOnly hw
  | dispatched _ _ h => exact h.calm.fastOnly (fastOnly_mark hw rfl)
  | adopted _ _ h | completedLegacy _ _ h | staged _ _ _ _ h | closed _ _ h =>
    exact h.rel.fastOnly (fastOnly_setStatus hw _ _)
  | completed _ h => exact h.fastOnly (fastOnly_setStatus hw _ _)
  | delivered =>
    intro r q hq hr
    rw [(deliver_books _).2.1] at hq
    exact (calm_release w _).fastOnly hw r q hq hr
  | taken | evicted => exact hw

theorem overwrites_ending {chain : Ref} (hc : ending e w i t = some chain)
    (hp : w.pending chain = some r) : r ∈ overwrites e w i t := by
  have h : (ending e w i t).bind w.pending = some r := by rw [hc]; exact hp
  unfold overwrites
  split
  · cases hc
  · cases hc
  · exact h

theorem overwrites_legacy {a : Awaited} {m : Envelope} (ha : a.failed = false) :
    overwrites e w i (some (.resume a (.legacyResultCommitted m r))) = some r := by
  cases a with
  | fault f => cases ha
  | record d => cases d <;> rfl
  | _ => rfl

/-- ENDED: a request that comes to owe its reservation is the one whose RESULT step goes on. -/
theorem Booking.ended {x : Input × Env o} (h : Booking o x.2 x.1 t w s) (hw : w.fastOnly)
    (hG : Booked w t x) (ho : s.1.owes r) :
    (w.owes r ∧ ∀ y ∈ t, y.finishes ≠ some r) ∨ ∃ y ∈ s.2, y.finishes = some r := by
  have hfin : ∀ {a k}, t = some (.resume a k) → k.finishes = none → ∀ y ∈ t, y.finishes ≠ some r := by
    rintro a k rfl hk y ⟨⟩
    rw [finishes_resume hk]
    simp
  have hset : ∀ {r' : Ref} {status} {v : World}, Calm (w.setStatus r' status) v → v.owes r →
      w.owes r ∨ (r = r' ∧ w.leased r') := fun hc ho => owes_setStatus (hc.owes ho)
  have hfree : ∀ {r' : Ref}, r' ∈ overwrites x.2 w x.1 t → ¬ (r = r' ∧ w.leased r') := by
    rintro r' hr' ⟨-, hl⟩
    rw [hG.1 r' hr'] at hl
    cases hl
  cases h with
  | plain h _ _ hf => exact .inl ⟨h.owes ho, fun y hy => by rw [hf y hy]; simp⟩
  | reserved ht _ h _ => exact .inl ⟨h.calm.owes ho, hfin ht rfl⟩
  | refunded ht h => exact .inl ⟨h.calm.owes ho, hfin ht rfl⟩
  | leaked ht _ _ h => exact .inl ⟨h.calm.owes ho, hfin ht rfl⟩
  | dispatched ht _ h => exact .inl ⟨owes_mark rfl (h.calm.owes ho), hfin ht rfl⟩
  | adopted ht hd h =>
    have hr' := hfree (by rw [ht, overwrites, if_neg hd]; rfl)
    exact .inl ⟨(hset h.rel ho).resolve_right hr', hfin ht rfl⟩
  | @completed a p frame r' v ht h =>
    rcases hset h ho with hold | ⟨rfl, -⟩
    · exact .inl ⟨hold, hfin ht rfl⟩
    · exact .inr ⟨_, List.mem_singleton_self _, rfl⟩
  | completedLegacy ht ha h =>
    have hr' := hfree (by rw [ht, overwrites_legacy ha]; rfl)
    exact .inl ⟨(hset h.rel ho).resolve_right hr', hfin ht rfl⟩
  | staged _ hf hq hm h =>
    refine .inl ⟨(hset h.rel ho).resolve_right ?_, fun y hy => by rw [hf y hy]; simp⟩
    rintro ⟨rfl, hl⟩
    simp only [World.leased, hq, Option.any_some, decide_eq_true_eq] at hl
    exact hm (hw _ _ hq hl.1)
  | closed hc hp h =>
    have hr' := hfree (overwrites_ending hc hp)
    exact .inl ⟨(hset h.rel ho).resolve_right hr', fun y hy => by
      rw [ending_finishes hc y hy]
      simp⟩
  | @delivered a p frame r' ht ha =>
    obtain ⟨q, hq, hr, hs⟩ := ho
    rw [(deliver_books _).2.1] at hq
    have hne : r ≠ r' := by
      rintro rfl
      rw [release_unleased hq] at hr
      cases hr
    refine .inl ⟨(calm_release w r').owes ⟨q, hq, hr, hs⟩, ?_⟩
    rintro y rfl
    cases ht
    cases a <;> simp [Task.finishes, Cont.finishes, hne.symm]
  | taken _ ht | evicted _ ht => exact .inl ⟨ho, by simp [ht]⟩

/-! ### Runs -/

/-- The books of a relay with its suspended tasks. -/
structure Accounts (s : Sys World Task) : Prop where
  total : ∀ n, s.shared.fastTerminalReservations n =
    s.shared.holding n + held (reserving n) s.tasks
  fast : s.shared.fastOnly
  ended : ∀ r, s.shared.owes r → ∃ x ∈ s.tasks, x.finishes = some r

theorem leaks_booked {x : Input × Env o} (h : Booked w t x) (n : Id) : leaks w n t = 0 := by
  cases hp : admitted t with
  | none => simp [leaks, hp]
  | some p => simp [leaks, hp, h.2.1 p hp]

/-- The books are kept by every step that is booked. -/
theorem accounts_step {u v : Sys World Task} {l : Label (Input × Env o)}
    (hs : Holds (Sane o) (Fits o) u) (h : Accounts u)
    (hG : ∀ p, pick u.tasks l.1 = some p → Booked u.shared p.1 l.2)
    (hstep : step (machine o) u l = some v) : Accounts v := by
  obtain ⟨t, rest, w, ts, hp, hperm, hM, rfl⟩ := step_cases hstep
  have hfits : ∀ x ∈ t, Fits o u.shared x := fun x hx =>
    hs.2 x (hperm.mem_iff.mpr (List.mem_append_left _ (by simpa using hx)))
  have hb := booking_of_machine hs.1.wf hfits hM
  have hheld : ∀ n, held (reserving n) u.tasks = holds? (reserving n) t + held (reserving n) rest :=
    fun n => by rw [held_perm hperm, held_append, holds?]
  refine ⟨fun n => ?_, hb.fastOnly h.fast, fun r ho => ?_⟩
  · have htot := h.total n
    have hbal := hb.balance (fun m => by have := h.total m; have := hheld m; omega)
      (fun m hm => (hG _ hp).2.2 m hm) n
    rw [leaks_booked (hG _ hp) n] at hbal
    rw [hheld n] at htot
    simp only [held_append] at hbal ⊢
    omega
  · rcases hb.ended h.fast (hG _ hp) ho with ⟨hold, hne⟩ | ⟨y, hy, hf⟩
    · obtain ⟨x, hx, hf⟩ := h.ended r hold
      rcases List.mem_append.mp (hperm.mem_iff.mp hx) with hx | hx
      · exact absurd hf (hne x (by simpa using hx))
      · exact ⟨x, List.mem_append_left _ hx, hf⟩
    · exact ⟨y, List.mem_append_right _ hy, hf⟩

theorem accounts_of_run {ledger : Option Book} (hl : ∀ b ∈ ledger, ∀ id, b id = [])
    {s : Sys World Task} (h : Runs (machine o) Booked (init ledger) s) : Accounts s := by
  refine (h.inv (I := fun s => Holds (Sane o) (Fits o) s ∧ Accounts s) ?_ ⟨holds_init o hl, ?_⟩).2
  · intro u v l hu hG hstep
    exact ⟨((sane_sound o Booked).step hu.1 hG hstep).1, accounts_step hu.1 hu.2 hG hstep⟩
  · refine ⟨fun n => rfl, fun r q hq => ?_, fun r ho => ?_⟩
    · cases hq
    · obtain ⟨q, hq, -⟩ := ho
      cases hq

/-- Holders are matched fast requests, or have ended. -/
theorem holding_split (hw : w.fastOnly) (n : Id) : w.holding n = w.reserved n + w.overdue n := by
  have hf : ∀ q ∈ w.objs, q.terminalReserved → q.mode = .fast := fun q hq hr => by
    obtain ⟨r, hlt, rfl⟩ := List.mem_iff_getElem.mp hq
    exact hw r _ (List.getElem?_eq_getElem hlt) hr
  unfold World.holding World.reserved World.overdue
  generalize w.objs = l at hf
  induction l with
  | nil => rfl
  | cons q l ih =>
    rw [List.countP_cons, List.countP_cons, List.countP_cons,
      ih fun q' hq' => hf q' (List.mem_cons_of_mem _ hq')]
    have hq := hf q List.mem_cons_self
    cases hr : q.terminalReserved with
    | false => simp [Request.holds, hr]
    | true =>
      by_cases hn : q.requester = n <;> by_cases hm : q.status = .matched <;>
        simp [Request.holds, hr, hn, hm, hq hr] <;> omega

/-- ACCOUNTED: in a run whose segments all keep the books, the reservations of every node are its
    matched fast requests that hold one, its unfinished admissions, and the ended requests whose
    RESULT step has yet to give theirs back; once no RESULT step is under way, only the first two. -/
theorem reservations_accounted (o : Options) (ledger : Option Book)
    (hl : ∀ b ∈ ledger, ∀ id, b id = []) {s : Sys World Task}
    (h : Runs (machine o) Booked (init ledger) s) :
    (∀ n, s.shared.fastTerminalReservations n =
      s.shared.reserved n + held (reserving n) s.tasks + s.shared.overdue n) ∧
    (∀ (r : Ref) (q : Request), s.shared.objs[r]? = some q → q.terminalReserved →
      q.status ≠ .matched → ∃ x ∈ s.tasks, x.finishes = some r) ∧
    ((∀ x ∈ s.tasks, x.finishes = none) → ∀ n, s.shared.fastTerminalReservations n =
      s.shared.reserved n + held (reserving n) s.tasks) := by
  have ha := accounts_of_run hl h
  have htot : ∀ n, s.shared.fastTerminalReservations n =
      s.shared.reserved n + held (reserving n) s.tasks + s.shared.overdue n := fun n => by
    rw [ha.total n, holding_split ha.fast n]
    omega
  refine ⟨htot, fun r q hq hr hm => ha.ended r ⟨q, hq, hr, hm⟩, fun hx n => ?_⟩
  have h0 : s.shared.overdue n = 0 := by
    refine List.countP_eq_zero.mpr fun q hq => ?_
    obtain ⟨r, hlt, rfl⟩ := List.mem_iff_getElem.mp hq
    simp only [decide_eq_true_eq]
    rintro ⟨-, hm, hr⟩
    obtain ⟨x, hxs, hf⟩ := ha.ended r ⟨_, List.getElem?_eq_getElem hlt, hr, hm⟩
    rw [hx x hxs] at hf
    cases hf
  rw [htot n, h0, Nat.add_zero]

/-- The books of a relay whose NEED 9 is asked: its reservation is held by the request. -/
theorem asked_need_accounted : ∃ s, Runs (machine small) Booked (init none) s ∧ s.tasks = [] ∧
    s.shared.reserved [1] = 1 ∧ s.shared.fastTerminalReservations [1] =
      s.shared.reserved [1] + held (reserving [1]) s.tasks := by
  obtain ⟨s, h, hs⟩ := exists_run (M := machine small) (s := init none)
    (fun w t x => decide (Booked w t x)) (fun _ _ _ => of_decide_eq_true) askNeed
    (fun s => s.tasks.isEmpty ∧ s.shared.reserved [1] = 1) (by decide)
  obtain ⟨hempty, hreserved⟩ := of_decide_eq_true hs
  have htasks := List.isEmpty_iff.mp hempty
  exact ⟨s, h, htasks, hreserved,
    (reservations_accounted small none (by simp) h).2.2 (by simp [htasks]) [1]⟩

/-- The RESULT of NEED 9 on the legacy path. -/
def answerLegacy : Label (Input × Env small) :=
  arrive (.legacyResult ⟨[8], [2], 0, none, [9], [], .auto⟩)

/-- A legacy RESULT ends a fast NEED and leaves its reservation behind for good: nothing is under
    way, nobody holds it. -/
theorem reservation_forgotten : ∃ s, Runs (machine small) free (init none) s ∧ s.tasks = [] ∧
    s.shared.reserved [1] = 0 ∧ s.shared.fastTerminalReservations [1] = 1 := by
  obtain ⟨s, h, hs⟩ := exists_run (M := machine small) (s := init none) (fun _ _ _ => true)
    (fun _ _ _ _ => trivial) (askNeed ++ [answerLegacy, goOn 0, goOn 0])
    (fun s => s.tasks.isEmpty ∧ s.shared.reserved [1] = 0 ∧
      s.shared.fastTerminalReservations [1] = 1) (by decide)
  obtain ⟨ht, hr, hn⟩ := of_decide_eq_true hs
  exact ⟨s, h, List.isEmpty_iff.mp ht, hr, hn⟩

end Truyn.Relay
