import Truyn.Relay.Accounts
import Truyn.Relay.Terminal

/-! relay:room | the RESULT of a completed NEED always finds a place

    The reservations of a requester and its queued terminal events share one bound, so a request
    that still holds its reservation finds room for its RESULT after its status is set. A RESULT
    delivered without a reservation (the request was answered twice, or is a legacy one), and an
    eviction that forgets reservations, take places that others have reserved (`Roomy`). -/

namespace Truyn.Relay
open Async Cas
open Ledger (NeedStatus Time Record Awaited Book)

variable {o : Options} {e : Env o} {i : Input} {t : Option Task} {w w' : World} {s : Step}

/-- The request whose RESULT a segment delivers. -/
def finished : Option Task → Option Ref
  | some (.resume a (.resultCompleted _ _ r)) => if a.failed then none else some r
  | _ => none

/-- The RESULT of a request has a place: the reservation of the request, one that nobody has
    reserved, or the socket or poll that takes it at once. -/
def World.hasRoom (w : World) (e : Env o) (r : Ref) : Bool :=
  (w.objs[r]?).all fun q => q.terminalReserved ∨ e.link q.requester = .writable ∨
    w.fastWaiters q.requester ∨ (q.partialCount = 0 ∧ w.resultWaiters q.needId) ∨
    (w.fastTerminalEvents q.requester).length + w.fastTerminalReservations q.requester <
      o.maxFastTerminalReservationsPerRequester

/-- A segment takes no place that another request has reserved. -/
def Roomy (w : World) (t : Option Task) (x : Input × Env o) : Prop :=
  (∀ r ∈ finished t, w.hasRoom x.2 r) ∧ ∀ n ∈ x.1.evicts, w.fastTerminalReservations n = 0

instance (w : World) (t : Option Task) (x : Input × Env o) : Decidable (Roomy w t x) := by
  unfold Roomy; infer_instance

/-! ### The delivery -/

theorem release_fields (w : World) (r : Ref) :
    (w.releaseFastTerminal r).fastTerminalEvents = w.fastTerminalEvents ∧
      (w.releaseFastTerminal r).fastWaiters = w.fastWaiters ∧
      (w.releaseFastTerminal r).resultWaiters = w.resultWaiters ∧
      (w.releaseFastTerminal r).log = w.log := by
  unfold World.releaseFastTerminal
  split
  · exact ⟨rfl, rfl, rfl, rfl⟩
  · split <;> exact ⟨rfl, rfl, rfl, rfl⟩

variable {r : Ref} {q : Request} {x : Task} {a : Awaited} {k : Cont}

theorem release_reservations (hq : w.objs[r]? = some q) :
    (w.releaseFastTerminal r).fastTerminalReservations q.requester =
      w.fastTerminalReservations q.requester - q.terminalReserved.toNat := by
  rw [World.releaseFastTerminal, hq]
  cases hr : q.terminalReserved with
  | false => simp [hr]
  | true =>
    simp only [hr, if_true, World.unreserveFastTerminal, World.setReservations,
      Function.update_self, Bool.toNat_true]
    rfl

/-- A request that holds a reservation is one of the holders. -/
theorem holding_pos (hq : w.objs[r]? = some q) (hr : q.terminalReserved) :
    0 < w.holding q.requester :=
  List.countP_pos_iff.mpr ⟨q, List.mem_of_getElem? hq, by simp [Request.holds, hr]⟩

/-- `queueFastTerminal` with a place left: the event is handed over, and takes at most one place. -/
theorem queueFastTerminal_room (n : Id) (ev : Event)
    (h : e.link n = .writable ∨ w.fastWaiters n ∨
      (w.fastTerminalEvents n).length < o.maxFastTerminalReservationsPerRequester) :
    ∃ tr, tr ≠ .full ∧ (w.queueFastTerminal o e n ev).2 = tr ∧
      (w.queueFastTerminal o e n ev).1.log = .sent n ev tr :: w.log ∧
      ((w.queueFastTerminal o e n ev).1.fastTerminalEvents = w.fastTerminalEvents ∨
        (e.link n ≠ .writable ∧ w.fastWaiters n = false ∧
          (w.queueFastTerminal o e n ev).1.fastTerminalEvents =
            Function.update w.fastTerminalEvents n (w.fastTerminalEvents n ++ [ev]))) := by
  unfold World.queueFastTerminal
  split
  · exact ⟨.socket, by simp, rfl, rfl, .inl rfl⟩
  next hl =>
  split
  · exact ⟨.longPoll, by simp, rfl, rfl, .inl rfl⟩
  next hw =>
  split
  · next hfull =>
    rcases h with h | h | h
    · exact absurd h hl
    · exact absurd h hw
    · exact absurd h (not_lt.mpr hfull)
  · exact ⟨.queued, by simp, rfl, rfl, .inr ⟨hl, by simpa using hw, rfl⟩⟩

/-- DELIVERED: with a place left, the RESULT is handed over and answered 200, and what is queued and
    reserved stays within the bound. -/
theorem deliver_room {p : Id} (frame : Frame) (hq : w.objs[r]? = some q) (hroom : w.hasRoom e r)
    (hle : w.holding q.requester ≤ w.fastTerminalReservations q.requester)
    (hb : ∀ n, (w.fastTerminalEvents n).length + w.fastTerminalReservations n ≤
      o.maxFastTerminalReservationsPerRequester) :
    (∃ tr, tr ≠ .full ∧ (deliverFastResult o e w p frame r).1.log =
      .answered (.fastResult p frame) (some r) 200 none ::
        .sent q.requester (.RESULT r (.frame frame)) tr :: w.log) ∧
    ∀ n, ((deliverFastResult o e w p frame r).1.fastTerminalEvents n).length +
      (deliverFastResult o e w p frame r).1.fastTerminalReservations n ≤
        o.maxFastTerminalReservationsPerRequester := by
  obtain ⟨hQ, hfw, hrw, hlog⟩ := release_fields w r
  have hR := release_reservations hq
  have hR' := (calm_release w r).le
  have hres := (deliver_books (o := o) (e := e) (w := w) (p := p) frame (r := r)).2.2
  simp only [World.hasRoom, hq, Option.all_some, decide_eq_true_eq] at hroom
  rw [hres]
  unfold deliverFastResult
  rw [hq]
  simp only
  split
  · next hwait =>
    have hfin : ((w.releaseFastTerminal r).finishResultWaiter q.needId).1.fastTerminalEvents =
        w.fastTerminalEvents := (same_finish _ _).terminal.trans hQ
    have hflog : ((w.releaseFastTerminal r).finishResultWaiter q.needId).1.log = w.log :=
      (aside_finish _ _).log.trans hlog
    refine ⟨⟨.longPoll, by simp, ?_⟩, fun n => ?_⟩
    · simp only [answer, World.emit, hflog]
    · have : ∀ out out', ((((w.releaseFastTerminal r).finishResultWaiter q.needId).1.emit
          out).emit out').fastTerminalEvents = w.fastTerminalEvents := fun _ _ => hfin
      simp only [answer, this]
      have := hb n
      have := hR' n
      omega
  next hwait =>
  have hnone : ¬(q.partialCount = 0 ∧ w.resultWaiters q.needId = true) := by
    rintro ⟨h₁, h₂⟩
    exact hwait ⟨h₁, by simp [World.finishResultWaiter, hrw, h₂]⟩
  have hplace : e.link q.requester = .writable ∨ w.fastWaiters q.requester ∨
      (w.fastTerminalEvents q.requester).length +
        (w.releaseFastTerminal r).fastTerminalReservations q.requester <
          o.maxFastTerminalReservationsPerRequester := by
    have hbq := hb q.requester
    rcases hroom with h | h | h | h | h
    · have := holding_pos hq h
      rw [h, Bool.toNat_true] at hR
      exact .inr (.inr (by omega))
    · exact .inl h
    · exact .inr (.inl h)
    · exact absurd h hnone
    · exact .inr (.inr (by omega))
  obtain ⟨tr, hne, htr, htlog, hev⟩ := queueFastTerminal_room (o := o) (e := e)
    (w := w.releaseFastTerminal r) q.requester (.RESULT r (.frame frame)) (by
      rw [hfw, hQ]
      rcases hplace with h | h | h
      · exact .inl h
      · exact .inr (.inl h)
      · exact .inr (.inr (by omega)))
  rw [if_neg (by rw [htr]; exact hne)]
  refine ⟨⟨tr, hne, ?_⟩, fun n => ?_⟩
  · simp only [answer, World.emit, htlog, hlog]
  · have hb' := hb n
    have hR'' := hR' n
    have he : ∀ u : World, ∀ out, (u.emit out).fastTerminalEvents = u.fastTerminalEvents :=
      fun _ _ => rfl
    simp only [answer, he]
    rcases hev with hev | ⟨hl, hw, hev⟩
    · rw [hev, hQ]
      omega
    · rw [hev, hQ, Function.update_apply]
      split
      · next hn =>
        subst hn
        rcases hplace with h | h | h
        · exact absurd h hl
        · rw [hfw, h] at hw
          cases hw
        · rw [List.length_append, List.length_singleton]
          omega
      · omega

/-- ROOM: what is queued and reserved for a node stays within the bound. -/
theorem Booking.room {x : Input × Env o} (h : Booking o x.2 x.1 t w s) (hG : Roomy w t x)
    (hle : ∀ n, w.holding n + holds? (reserving n) t ≤ w.fastTerminalReservations n)
    (hb : ∀ n, (w.fastTerminalEvents n).length + w.fastTerminalReservations n ≤
      o.maxFastTerminalReservationsPerRequester) (n : Id) :
    (s.1.fastTerminalEvents n).length + s.1.fastTerminalReservations n ≤
      o.maxFastTerminalReservationsPerRequester := by
  have hbn := hb n
  have hcalm : ∀ {u v : World}, u.fastTerminalEvents = w.fastTerminalEvents →
      u.fastTerminalReservations = w.fastTerminalReservations → Calm u v →
      (v.fastTerminalEvents n).length + v.fastTerminalReservations n ≤
        o.maxFastTerminalReservationsPerRequester := by
    intro u v hQ hR hc
    have := hc.le n
    rw [hc.terminal, hQ]
    rw [hR] at this
    omega
  cases h with
  | plain h => exact hcalm rfl rfl h
  | @reserved a requester frame waitMs provider u ht hroom hs hx =>
    rw [hs.terminal, hs.reservations]
    simp only [World.setReservations, Function.update_apply]
    split
    · next hn =>
      subst hn
      omega
    · exact hbn
  | refunded ht hs =>
    rw [hs.terminal, hs.reservations]
    simp only [World.unreserveFastTerminal, World.setReservations, Function.update_apply]
    split
    · next hn =>
      subst hn
      omega
    · exact hbn
  | leaked _ _ _ hs => exact hcalm rfl rfl hs.calm
  | dispatched _ _ hs => exact hcalm (by rfl) (by rfl) hs.calm
  | adopted _ _ h | completedLegacy _ _ h | staged _ _ _ _ h | closed _ _ h =>
    exact hcalm (by rfl) (by rfl) h.rel
  | completed _ h => exact hcalm (by rfl) (by rfl) h
  | @delivered a p frame r ht ha =>
    have hr : w.hasRoom x.2 r := hG.1 r (by rw [ht]; simp [finished, ha])
    cases hq : w.objs[r]? with
    | none =>
      rw [deliverFastResult, hq]
      exact hbn
    | some q => exact (deliver_room _ hq hr ((Nat.le_add_right _ _).trans (hle _)) hb).2 n
  | @taken m l f k hi ht =>
    change (Function.update w.fastTerminalEvents m ((w.fastTerminalEvents m).drop k) n).length +
      w.fastTerminalReservations n ≤ _
    rw [Function.update_apply]
    split
    · next hn =>
      subst hn
      rw [List.length_drop]
      omega
    · exact hbn
  | @evicted m hi ht =>
    change (Function.update w.fastTerminalEvents m [] n).length +
      Function.update w.fastTerminalReservations m 0 n ≤ _
    rw [Function.update_apply, Function.update_apply]
    split
    · exact Nat.zero_le _
    · exact hbn

/-! ### Nothing that is completed is forgotten -/

/-- A handler that delivers a RESULT was left there by the completion of its request. -/
def Delivers (w : World) (x : Task) : Prop :=
  ∀ r ∈ x.cont.delivers, (∃ k, x = .resume .nothing k) ∧ r < w.objs.length

theorem delivers_none (h : x.cont.delivers = none) : Delivers w x := by
  intro r hr
  rw [h] at hr
  cases hr

theorem Keeps.length (h : Keeps w w') : w.objs.length ≤ w'.objs.length := by
  by_contra hlt
  obtain ⟨q, hq⟩ := Option.isSome_iff_exists.mp (view_isSome.mpr (not_le.mp hlt))
  obtain ⟨q', hq', -⟩ := h.object _ q hq
  exact absurd (view_lt hq') (lt_irrefl _)

theorem Segment.delivers (ht : ∀ x ∈ t, Fits o w x ∧ Delivers w x) (h : Segment o i t w s) :
    ∀ x ∈ s.2, Delivers s.1 x := by
  have hlen := h.keeps.length
  have hone : ∀ {k}, (k.delivers = none ∨ ∃ r q, k.delivers = some r ∧ w.view r = some q) →
      ∀ x ∈ [Task.resume .nothing k], Delivers s.1 x := by
    intro k hk x hx
    rw [List.mem_singleton.mp hx]
    rcases hk with hk | ⟨r, q, hk, hq⟩
    · exact delivers_none hk
    · intro r' hr'
      cases hk.symm.trans hr'
      exact ⟨⟨k, rfl⟩, (view_lt hq).trans_le hlen⟩
  have hborn : ∀ {k}, Fresh s.1 k → k.delivers = none := by
    intro k hk
    cases k <;> first | rfl | exact absurd hk id
  have hwait : ∀ {x}, Born s.1 x → Delivers s.1 x := by
    intro x hx
    cases x with
    | call | read => exact delivers_none (hborn hx)
    | resume => exact delivers_none (hborn hx.2.1)
  have hasked : ∀ {y k}, t = some y → y.cont = k → (∀ k', y ≠ .resume .nothing k') →
      k.delivers = none := by
    intro y k hy hk hne
    cases hd : k.delivers with
    | none => rfl
    | some r =>
      obtain ⟨⟨k', hk'⟩, -⟩ := (ht y (by rw [hy]; rfl)).2 r (by rw [hk, hd]; rfl)
      exact absurd hk' (hne k')
  cases h with
  | wait h | adopted _ _ h => exact fun x hx => hwait (h.born x hx).2
  | @expired a r now k v ht' =>
    have hk := (ht _ ht').1.shape.2.2
    refine hone (.inl ?_)
    cases k <;> first | rfl | cases hk
  | @remembered w₁ v k id hk =>
    refine hone (.inl ?_)
    cases k <;> first | rfl | cases hk
  | completedStage => exact hone (.inl rfl)
  | completedLegacyStage hq => exact hone (.inr ⟨_, _, rfl, hq⟩)
  | @completed a k p r k' v ht' ha hk =>
    obtain ⟨q, hq, -⟩ := direct_of_completes hk (ht _ ht').1.shape
    refine hone (.inr ⟨r, q, ?_, hq⟩)
    cases k <;> cases hk <;> rfl
  | entered _ _ _ _ _ _ _ _ _ h =>
    rcases h with ⟨-, rfl⟩ | ⟨-, rfl⟩
    · exact hone (.inl rfl)
    · exact fun _ hx => absurd hx List.not_mem_nil
  | stored _ _ _ _ _ h =>
    rcases h with ⟨_, _, -, rfl⟩ | ⟨-, rfl⟩
    · exact fun _ hx => absurd hx List.not_mem_nil
    · exact hone (.inl rfl)
  | executed ht' =>
    intro x hx
    rw [List.mem_singleton.mp hx]
    exact delivers_none (hasked ht' rfl (by simp))
  | dropped ht' _ hts =>
    intro x hx
    rcases List.mem_cons.mp hx with rfl | hx
    · exact delivers_none (hasked ht' rfl (by simp))
    · rcases hts with rfl | rfl
      · exact absurd hx List.not_mem_nil
      · rw [List.mem_singleton.mp hx]
        exact delivers_none rfl
  | read ht' =>
    intro x hx
    rw [List.mem_singleton.mp hx]
    exact delivers_none (hasked ht' rfl (by simp))
  | _ => exact fun _ hx => absurd hx List.not_mem_nil

/-- Nothing that left the relay is taken back. -/
theorem Segment.log (h : Segment o i t w s) : w.log <:+ s.1.log := by
  have hquiet : ∀ {l} {u v : World}, Quiet u v → l <:+ u.log → l <:+ v.log := fun h hl => by
    obtain ⟨m, hm, -⟩ := h.log
    exact hl.trans ⟨m, hm.symm⟩
  have hemit : ∀ (u : World) out, u.log <:+ (u.emit out).log := fun u out =>
    List.suffix_cons out u.log
  have hclose : ∀ (u : World) chain status now, u.log <:+ (closeChain u chain status now).log := by
    intro u chain status now
    refine hquiet (quiet_closeChain u chain status now) ?_
    rw [(closing_same u chain status now).1]
  have hsame : w.log <:+ w.log := List.suffix_rfl
  cases h with
  | wait h => exact hquiet h.quiet hsame
  | adopted _ _ h => exact hquiet h.quiet hsame
  | expired _ _ h | cancelled _ _ h => exact hquiet h hsame
  | remembered _ _ h₁ _ _ h₂ | entered _ h₁ _ _ _ _ _ _ h₂ _ =>
    have h₁ := hquiet h₁ hsame
    exact hquiet h₂ h₁
  | dispatched _ _ _ _ _ h | completedStage _ _ _ _ _ _ _ h | completedLegacyStage _ _ _ h
  | completed _ _ _ h | delivered _ _ _ h | spilled _ _ _ h | repeated _ _ _ h
  | refused _ _ _ _ h | refusedByLedger _ _ h => exact hquiet h (hemit _ _)
  | closed _ h => exact hquiet h (hclose _ _ _ _)
  | stageSent _ _ h₁ _ h₂ => exact hquiet h₂ ((hquiet h₁ hsame).trans (hemit _ _))
  | stored _ _ _ _ hw₁ h =>
    subst hw₁
    rcases h with ⟨_, _, h, -⟩ | ⟨h, -⟩
    · refine hquiet h (List.IsSuffix.trans ?_ (hclose _ _ _ _))
      exact hemit _ _
    · exact hquiet h (hemit _ _)
  | streamed _ _ _ h => exact hquiet h ((hemit _ _).trans (hemit _ _))
  | executed | dropped | read | peer => exact hsame
  | timeout => exact hclose _ _ _ _

theorem results_mono (h : w.log <:+ w'.log) (r : Ref) : results r w ≤ results r w' :=
  h.sublist.countP_le

/-- A handler goes on only when it is its turn. -/
theorem machine_resume {x : Input × Env o} (h : machine o w (some (.resume a k)) x = some s) :
    s = resume o x.2 w a k := by
  obtain ⟨x, e⟩ := x
  cases x with
  | go => exact (Option.some.inj h).symm
  | _ => cases h

theorem resume_ok (ha : a.failed = false) :
    resume o e w a k = proceed o e w a k := by
  cases a with
  | fault f => cases ha
  | _ => rfl

/-- HANDED: a segment that counts a success of a direct request leaves a delivery, and a delivery
    with a place hands the RESULT over. -/
theorem handed_step {x : Input × Env o} (hw : Wf w) (ht : ∀ y ∈ t, Fits o w y ∧ Delivers w y)
    (hG : Roomy w t x)
    (hle : ∀ n, w.holding n + holds? (reserving n) t ≤ w.fastTerminalReservations n)
    (hb : ∀ n, (w.fastTerminalEvents n).length + w.fastTerminalReservations n ≤
      o.maxFastTerminalReservationsPerRequester) (h : machine o w t x = some s)
    (hd : ∀ q ∈ w.view r, q.stage = none) :
    successes r s.1 + results r w + holds? (delivering r) t ≤
      successes r w + results r s.1 + held (delivering r) s.2 := by
  have hseg : Segment o x.1 t w s := segment_of_machine hw (fun y hy => (ht y hy).1) h
  have hmono := results_mono hseg.log r
  have hsucc := hseg.successes (fun y hy => (ht y hy).1) r
  by_cases hdel : ∃ y, t = some y ∧ y.cont.delivers = some r
  · obtain ⟨y, rfl, hy⟩ := hdel
    obtain ⟨⟨k, rfl⟩, hlt⟩ := (ht y rfl).2 r hy
    have hy : k.delivers = some r := hy
    have hs := machine_resume h
    have hsame : successes r s.1 = successes r w := by
      rcases hsucc with hsucc | ⟨-, ⟨q, hq, hst⟩ | ⟨-, a, k', p, k'', hk, -, hk'⟩⟩
      · exact hsucc
      · rw [hd q hq] at hst
        cases hst
      · cases hk
        cases k <;> first | (cases hk'; done) | cases hy
    have hone : holds? (delivering r) (some (.resume .nothing k)) = 1 := by
      rw [holds?_some, Relay.delivering]
      exact if_pos hy
    have hgot : results r w + 1 ≤ results r s.1 := by
      cases k with
      | resultCompleted p frame r' =>
        cases hy
        obtain ⟨q, hq⟩ : ∃ q, w.objs[r]? = some q := ⟨_, List.getElem?_eq_getElem hlt⟩
        obtain ⟨⟨tr, -, hlog⟩, -⟩ := deliver_room (o := o) (e := x.2) (p := p) frame hq
          (hG.1 r rfl) ((Nat.le_add_right _ _).trans (hle _)) hb
        have hlog' : s.1.log = .answered (.fastResult p frame) (some r) 200 none ::
            .sent q.requester (.RESULT r (.frame frame)) tr :: w.log := by rw [hs]; exact hlog
        rw [results, results, World.sent, World.sent, hlog', List.countP_cons, List.countP_cons]
        simp [Output.resultOf]
      | legacyResultCompleted m r' =>
        cases hy
        obtain ⟨q, hq⟩ : ∃ q, w.objs[r]? = some q := ⟨_, List.getElem?_eq_getElem hlt⟩
        have hs' : s = deliverLegacyResult o x.2 w m r := hs
        rw [hs', deliverLegacyResult, hq]
        simp only [answer]
        obtain ⟨tr, hq'⟩ := quiet_queue o x.2 (w.modify r fun q => { q with result := some m })
          q.requester (.RESULT r (.envelope m))
        rw [results_emit, hq'.results r, results_emit]
        have : results r (w.modify r fun q => { q with result := some m }) = results r w := rfl
        simp [Output.resultOf, this]
      | _ => cases hy
    omega
  · have hzero : holds? (delivering r) t = 0 := by
      cases t with
      | none => rfl
      | some y =>
        rw [holds?_some, Relay.delivering]
        exact if_neg fun hy => hdel ⟨y, rfl, hy⟩
    rcases hsucc with hsucc | ⟨hsucc, ⟨q, hq, hst⟩ | ⟨-, a, k, p, k', rfl, ha, hk⟩⟩
    · omega
    · rw [hd q hq] at hst
      cases hst
    · have hs := machine_resume h
      have hone : held (delivering r) s.2 = 1 := by
        rw [hs, resume_ok ha]
        cases k <;> cases hk <;> simp [proceed, turn, Relay.delivering, Task.cont, Cont.delivers]
      omega

/-! ### Runs -/

/-- What holds in every state of a run that takes no reserved place. -/
structure Housed (o : Options) (s : Sys World Task) : Prop where
  fits : Holds (Sane o) (Fits o) s
  delivers : ∀ x ∈ s.tasks, Delivers s.shared x
  covered : ∀ n, s.shared.holding n + held (reserving n) s.tasks ≤
    s.shared.fastTerminalReservations n
  room : ∀ n, (s.shared.fastTerminalEvents n).length + s.shared.fastTerminalReservations n ≤
    o.maxFastTerminalReservationsPerRequester
  handed : ∀ r, (∀ q ∈ s.shared.view r, q.stage = none) →
    successes r s.shared ≤ results r s.shared + held (delivering r) s.tasks

theorem Delivers.stable (h : Keeps w w') (hx : Delivers w x) : Delivers w' x :=
  fun r hr => ⟨(hx r hr).1, (hx r hr).2.trans_le h.length⟩

theorem housed_step {u v : Sys World Task} {l : Label (Input × Env o)} (hu : Housed o u)
    (hG : ∀ p, pick u.tasks l.1 = some p → Roomy u.shared p.1 l.2)
    (hstep : step (machine o) u l = some v) : Housed o v := by
  have hv := (sane_sound o Roomy).step hu.fits hG hstep
  obtain ⟨t, rest, w, ts, hp, hperm, hM, rfl⟩ := step_cases hstep
  have hmem : ∀ x ∈ t, x ∈ u.tasks := fun x hx =>
    hperm.mem_iff.mpr (List.mem_append_left _ (by simpa using hx))
  have hrest : ∀ x ∈ rest, x ∈ u.tasks := fun x hx =>
    hperm.mem_iff.mpr (List.mem_append_right _ hx)
  have hfits : ∀ x ∈ t, Fits o u.shared x := fun x hx => hu.fits.2 x (hmem x hx)
  have hboth : ∀ x ∈ t, Fits o u.shared x ∧ Delivers u.shared x := fun x hx =>
    ⟨hfits x hx, hu.delivers x (hmem x hx)⟩
  have hheld : ∀ f : Task → ℕ, held f u.tasks = holds? f t + held f rest := fun f => by
    rw [held_perm hperm, held_append, holds?]
  have hle : ∀ n, u.shared.holding n + holds? (reserving n) t ≤
      u.shared.fastTerminalReservations n := fun n => by
    have := hu.covered n
    rw [hheld] at this
    omega
  have hb := booking_of_machine hu.fits.1.wf hfits hM
  have hseg := segment_of_machine hu.fits.1.wf hfits hM
  refine ⟨hv.1, fun x hx => ?_, fun n => ?_, fun n => hb.room (hG _ hp) hle hu.room n,
    fun r hd => ?_⟩
  · rcases List.mem_append.mp hx with hx | hx
    · exact (hu.delivers x (hrest x hx)).stable hseg.keeps
    · exact hseg.delivers hboth x hx
  · have hbal := hb.balance hle (hG _ hp).2 n
    have hcov := hu.covered n
    rw [hheld] at hcov
    simp only [held_append] at hbal ⊢
    omega
  · have hd' : ∀ q ∈ u.shared.view r, q.stage = none := by
      intro q hq
      obtain ⟨q', hq', -, -, -, -, hst⟩ := hseg.keeps.object r q hq
      exact hst ▸ hd q' hq'
    have h₁ := handed_step hu.fits.1.wf hboth (hG _ hp) hle hu.room hM hd'
    have h₂ := hu.handed r hd'
    rw [hheld] at h₂
    simp only [held_append] at h₁ ⊢
    omega

theorem housed_of_run {ledger : Option Book} (hl : ∀ b ∈ ledger, ∀ id, b id = [])
    {s : Sys World Task} (h : Runs (machine o) Roomy (init ledger) s) : Housed o s := by
  refine h.inv (fun _ _ _ hu hG hstep => housed_step hu hG hstep)
    ⟨holds_init o hl, fun _ hx => absurd hx List.not_mem_nil, fun n => le_rfl,
      fun n => Nat.zero_le _, fun r _ => Nat.zero_le _⟩

/-- HOUSED: in a run whose segments take no reserved place, queued terminal events and reservations
    of a node stay within their common bound; a RESULT step that goes on (and takes no reserved
    place itself) hands its event over and answers 200, never `terminal_capacity_invariant`; and
    every counted success of a direct NEED has its RESULT handed over or its delivery under way. -/
theorem terminals_housed (o : Options) (ledger : Option Book) (hl : ∀ b ∈ ledger, ∀ id, b id = [])
    {s : Sys World Task} (h : Runs (machine o) Roomy (init ledger) s) :
    (∀ n, (s.shared.fastTerminalEvents n).length + s.shared.fastTerminalReservations n ≤
      o.maxFastTerminalReservationsPerRequester) ∧
    (∀ a p frame r (e : Env o), .resume a (.resultCompleted p frame r) ∈ s.tasks →
      Roomy s.shared (some (.resume a (.resultCompleted p frame r))) (.go, e) →
      ∃ q tr, s.shared.objs[r]? = some q ∧ tr ≠ .full ∧
        (resume o e s.shared a (.resultCompleted p frame r)).1.log =
          .answered (.fastResult p frame) (some r) 200 none ::
            .sent q.requester (.RESULT r (.frame frame)) tr :: s.shared.log) ∧
    ∀ (r : Ref) (q : Request), s.shared.objs[r]? = some q → q.stage = none →
      successes r s.shared ≤ results r s.shared + held (delivering r) s.tasks := by
  have hs := housed_of_run hl h
  refine ⟨hs.room, ?_, fun r q hq hd => hs.handed r fun q' hq' => ?_⟩
  · intro a p frame r e hx hG
    obtain ⟨⟨k, hk⟩, hlt⟩ := hs.delivers _ hx r rfl
    cases hk
    obtain ⟨q, hq⟩ : ∃ q, s.shared.objs[r]? = some q := ⟨_, List.getElem?_eq_getElem hlt⟩
    obtain ⟨⟨tr, hne, hlog⟩, -⟩ := deliver_room (o := o) (p := p) frame hq
      (hG.1 r rfl) ((Nat.le_add_right _ _).trans (hs.covered _)) hs.room
    exact ⟨q, tr, hq, hne, hlog⟩
  · cases (view_of_get hq).symm.trans hq'
    exact hd

/-- The RESULT of NEED 9 is housed: the bound is kept, and it is handed over. -/
theorem answered_need_housed : ∃ s q, Runs (machine small) Roomy (init none) s ∧
    s.shared.objs[0]? = some q ∧ successes 0 s.shared = 1 ∧
    successes 0 s.shared ≤ results 0 s.shared + held (delivering 0) s.tasks ∧
    (s.shared.fastTerminalEvents [1]).length + s.shared.fastTerminalReservations [1] ≤ 8 := by
  obtain ⟨s, h, hs⟩ := exists_run (M := machine small) (s := init none)
    (fun w t x => decide (Roomy w t x)) (fun _ _ _ => of_decide_eq_true)
    (askNeed ++ [answerNeed, goOn 0, goOn 0, goOn 0])
    (fun s => (s.shared.objs[0]?).any (fun q => q.stage = none) ∧ successes 0 s.shared = 1)
    (by decide)
  obtain ⟨hq, hsucc⟩ := of_decide_eq_true hs
  obtain ⟨q, hq, hd⟩ := (Option.any_eq_true _ _).mp hq
  have hall := terminals_housed small none (by simp) h
  exact ⟨s, q, h, hq, hsucc, hall.2.2 0 q hq (of_decide_eq_true hd), hall.1 [1]⟩

/-- A relay with room for one terminal event of each requester. -/
def tight : Options := { small with maxFastTerminalReservationsPerRequester := 1 }

/-- Node 1 has no socket open. -/
def away : Env tight :=
  { now := 1, key := some, keys := fun _ _ h => (Option.some.inj h).symm ▸ rfl
    canDispatch := fun _ => true, link := fun n => if n = [1] then .absent else .writable
    offer := .ok (some [2]), next := none, auth := none, needFound := false }

/-- Two RESULTs of one NEED that are both checked before either is committed: the second, whose
    success is counted, finds the place taken by the first. -/
theorem result_unhoused : ∃ s, Runs (machine tight) free (init none) s ∧
    successes 0 s.shared = 2 ∧ s.shared.log.head? = some (.answered
      (.fastResult [2] (signed .RESULT [9] [2])) (some 0) 503
        (some "terminal_capacity_invariant")) := by
  obtain ⟨s, h, hs⟩ := exists_run (M := machine tight) (s := init none) (fun _ _ _ => true)
    (fun _ _ _ _ => trivial)
    [(none, .start (.fastNeed [1] (signed .NEED [9] [1]) 0), away), (some 0, .go, away),
      (some 0, .go, away), (some 0, .go, away), (some 0, .go, away),
      (none, .start (.fastResult [2] (signed .RESULT [9] [2])), away),
      (none, .start (.fastResult [2] (signed .RESULT [9] [2])), away), (some 0, .go, away),
      (some 0, .go, away), (some 0, .go, away), (some 0, .go, away), (some 0, .go, away),
      (some 0, .go, away)]
    (fun s => successes 0 s.shared = 2 ∧ s.shared.log.head? = some (.answered
      (.fastResult [2] (signed .RESULT [9] [2])) (some 0) 503
        (some "terminal_capacity_invariant"))) (by decide)
  exact ⟨s, h, of_decide_eq_true hs⟩

end Truyn.Relay
