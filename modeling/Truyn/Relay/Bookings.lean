import Truyn.Relay.Reservations

/-! relay:bookings | every segment keeps the books, or is one of the few that write them

    `Booking` lists what a segment can do to the terminal reservations: nothing (`plain`), a
    reservation taken, given back or leaked by an admission, handed on to a request, or a request
    that holds one ended by a status poll, a RESULT, or a chain. -/

namespace Truyn.Relay
open Async Cas
open Ledger (Fault NeedStatus Time Record Answer Awaited Call)

variable {o : Options} {e : Env o} {i : Input} {t : Option Task} {w w' : World} {s : Step}

/-! ### Kinds of segments -/

/-- What ends a chain after the RESULT of stage `j`: a failed stage, the last one, or a next one that
    cannot be dispatched. -/
def Chain.ends (e : Env o) (ch : Chain) (frame : Frame) (j : ℕ) : Bool :=
  frame.failed ∨ ch.frame.stages.length ≤ j + 1 ∨ !e.canDispatch ch.requester ∨
    (ch.frame.stages[j + 1]?).join = none

/-- The chain that a segment closes. -/
def ending (e : Env o) (w : World) (i : Input) : Option Task → Option Ref
  | none => match i with
    | .chainTimeout chain => if w.chainTerminal chain then none else some chain
    | _ => none
  | some (.resume _ (.stageMatched _ chain _)) => match e.offer with
    | .ok none => some chain
    | _ => none
  | some (.resume _ (.stageCompleted _ frame r chain)) =>
    match (w.objs[r]?).bind Request.stage, w.chainObjs[chain]? with
    | some s, some ch => if ch.ends e frame s.stageIndex then some chain else none
    | _, _ => none
  | _ => none

/-- What a segment does to the reservations, with the tasks it leaves. -/
inductive Booking (o : Options) (e : Env o) (i : Input) (t : Option Task) (w : World) : Step → Prop
  | plain {u} : Calm w u.1 → (∀ n, held (reserving n) u.2 = holds? (reserving n) t) →
      (∀ a k, t = some (.resume a k) → k.reserves = none) → (∀ x ∈ t, x.finishes = none) →
      Booking o e i t w u
  | reserved {a requester frame waitMs provider u} :
      t = some (.resume a (.fastNeedSwept requester frame waitMs provider)) →
      (w.fastTerminalEvents requester).length + w.fastTerminalReservations requester <
        o.maxFastTerminalReservationsPerRequester →
      Same (w.setReservations requester (w.fastTerminalReservations requester + 1)) u.1 →
      (∃ x, u.2 = [x] ∧ x.cont = .fastNeedAdmitted requester frame waitMs provider) →
      Booking o e i t w u
  | refunded {f requester frame waitMs provider v} :
      t = some (.resume (.fault f) (.fastNeedAdmitted requester frame waitMs provider)) →
      Same (w.unreserveFastTerminal requester) v → Booking o e i t w (v, [])
  | leaked {a requester frame waitMs provider v} :
      t = some (.resume a (.fastNeedAdmitted requester frame waitMs provider)) →
      a.failed = false → w.hasRequest frame.i → Same w v → Booking o e i t w (v, [])
  | dispatched {a requester frame waitMs provider v} :
      t = some (.resume a (.fastNeedAdmitted requester frame waitMs provider)) →
      w.hasRequest frame.i = false → Same (w.markMatchedRequest (newRequest frame.i requester
        provider (frame.capability.getD []) e.now .fast none)) v → Booking o e i t w (v, [])
  | adopted {d n id r u} : t = some (.resume (.record (some d)) (.statusRead n id r)) →
      d.status ≠ .matched → Idle Calm (w.setStatus r d.status) u → Booking o e i t w u
  | completed {a p frame r v} : t = some (.resume a (.resultCommitted p frame r)) →
      Calm (w.setStatus r .completed) v →
      Booking o e i t w (v, [.resume .nothing (.resultCompleted p frame r)])
  | completedLegacy {a m r u} : t = some (.resume a (.legacyResultCommitted m r)) →
      a.failed = false → Idle Calm (w.setStatus r .completed) u → Booking o e i t w u
  | staged {r q u} : (∀ n, holds? (reserving n) t = 0) → (∀ x ∈ t, x.finishes = none) →
      w.objs[r]? = some q → q.mode ≠ .fast → Idle Calm (w.setStatus r .completed) u →
      Booking o e i t w u
  | closed {chain r u} : ending e w i t = some chain → w.pending chain = some r →
      Idle Calm (w.setStatus r .failed) u → Booking o e i t w u
  | delivered {a p frame r} : t = some (.resume a (.resultCompleted p frame r)) →
      a.failed = false → Booking o e i t w (deliverFastResult o e w p frame r)
  | taken {n l f k} : i = .takeEvents n l f k → t = none →
      Booking o e i t w (takeEvents w n l f k, [])
  | evicted {n} : i = .evict n → t = none → Booking o e i t w (evict w n, [])

theorem Idle.unheld (h : Idle Calm w s) (n : Id) : held (reserving n) s.2 = 0 :=
  held_zero fun x hx => by simp [reserving, h.free x hx]

/-- An idle segment of a task that holds nothing. -/
theorem Idle.plain (h : Idle Calm w s) (ht : ∀ x ∈ t, x.cont.reserves = none)
    (hf : ∀ x ∈ t, x.finishes = none) : Booking o e i t w s := by
  refine .plain h.rel (fun n => ?_) (fun a k hk => ht (.resume a k) (by rw [hk]; rfl)) hf
  rw [h.unheld n]
  cases t with
  | none => rfl
  | some x => simp [reserving, ht x rfl]

variable {requester provider : Id} {r chain : Ref} {a : Awaited} {k : Cont} {frame : Frame}

/-- An idle segment of a handler that holds nothing. -/
theorem Idle.resumed (h : Idle Calm w s) (ht : t = some (.resume a k)) (hk : k.reserves = none)
    (hf : k.finishes = none) : Booking o e i t w s := by
  subst ht
  refine h.plain ?_ ?_ <;> rintro x ⟨⟩
  · exact hk
  · exact finishes_resume hf

theorem calm_complete (r : Ref) (provider : Id) (now : Time) : Calm (w.setStatus r .completed)
    (completeRequest w r provider now) := by
  have h := same_mark w r .completed
  have h₁ : Same (w.setStatus r .completed) { w.markRequestStatus r .completed with
      successfulTasks := Function.update w.successfulTasks provider
        (w.successfulTasks provider + 1) } := ⟨h.objs, h.reservations, h.terminal⟩
  refine h₁.calm.trans ((calm_modify _ r (f := fun q => { q with completedAt := some now }) ?_).trans
    (Same.calm ⟨rfl, rfl, rfl⟩))
  exact fun _ => rfl

/-! ### NEED -/

theorem admitFastNeed_booking {waitMs : ℕ}
    (ht : t = some (.resume a (.fastNeedSwept requester frame waitMs provider))) :
    Booking o e i t w (admitFastNeed o w requester frame waitMs provider) := by
  have hidle : ∀ {s : Step}, Idle Calm w s → Booking o e i t w s := fun h => h.resumed ht rfl rfl
  unfold admitFastNeed World.reserveFastTerminal
  split
  · exact hidle idle_answer
  next w₁ hw₁ =>
  split at hw₁
  · cases hw₁
  next hroom =>
  cases hw₁
  have hback : Same w ((pruneRequests o (w.setReservations requester
      (w.fastTerminalReservations requester + 1))).1.unreserveFastTerminal requester) := by
    refine ⟨rfl, ?_, rfl⟩
    funext n
    simp only [World.unreserveFastTerminal, World.setReservations, pruneRequests,
      Function.update_apply, if_true]
    split
    · next hn => rw [hn]; omega
    · rfl
  split
  · split
    · next h =>
      obtain ⟨hs, x, hx, hk⟩ := admitDirectNeedId_cases h
      exact .reserved ht (not_le.mp hroom) ((plain_prune o _).same.trans hs.same) ⟨x, hx, hk⟩
    · exact hidle (.after hback.calm idle_answer)
  · exact hidle (.after hback.calm idle_answer)

theorem dispatchFastNeed_booking {waitMs : ℕ}
    (ht : t = some (.resume a (.fastNeedAdmitted requester frame waitMs provider)))
    (ha : a.failed = false) :
    Booking o e i t w (dispatchFastNeed o e w requester frame waitMs provider) := by
  unfold dispatchFastNeed
  split
  · next h => exact .leaked ht ha h ⟨rfl, rfl, rfl⟩
  next hfree =>
  simp only
  generalize hw₁ : (if 0 < waitMs then _ else _ : World) = w₁
  have h₁ : Same (w.markMatchedRequest (newRequest frame.i requester provider
      (frame.capability.getD []) e.now .fast none)) w₁ := by
    rw [← hw₁]
    split
    · exact ⟨rfl, rfl, rfl⟩
    · exact .refl _
  have h₂ := h₁.trans (same_queueFast o e w₁ provider (.NEED frame.i requester) false)
  split
  · exact .dispatched ht (eq_false_of_ne_true hfree) (h₂.trans ⟨rfl, rfl, rfl⟩)
  · exact .dispatched ht (eq_false_of_ne_true hfree) h₂

/-! ### RESULT -/

theorem checkResult_booking (hw : Wf w) {now : Time}
    (ht : t = some (.resume a (.resultChecked provider frame r))) :
    Booking o e i t w (checkResult w now provider frame r) := by
  have hidle : ∀ {s : Step}, Idle Calm w s → Booking o e i t w s := fun h => h.resumed ht rfl rfl
  unfold checkResult
  simp only
  split
  · exact hidle idle_answer
  next q hq =>
  split
  · exact hidle idle_answer
  split
  · next st hst =>
    split
    · exact hidle idle_answer
    split
    · exact hidle idle_answer
    · have hm : q.mode ≠ .fast := by
        have := (hw.stage r _ (view_of_get hq)).mpr (by simp [Request.core, hst])
        simp only [Request.core] at this
        simp [this]
      subst ht
      refine .staged (fun n => by simp [reserving, Task.cont, Cont.reserves]) ?_ hq hm
        (.after (calm_complete r provider now) (idle_turn rfl))
      rintro x ⟨⟩
      exact finishes_resume rfl
  · exact hidle (idle_call rfl)

theorem startLegacyResult_booking {m : Envelope} :
    Booking o e i none w (startLegacyResult e w m) := by
  have hidle : ∀ {s : Step}, Idle Calm w s → Booking o e i none w s := fun h =>
    h.plain (by simp) (by simp)
  unfold startLegacyResult
  simp only
  split
  · exact hidle idle_answer
  split
  · exact hidle (idle_need rfl)
  split
  · exact hidle idle_answer
  next q hq =>
  split
  · exact hidle idle_answer
  split
  · exact hidle idle_answer
  split
  · next hm =>
    exact .staged (by simp) (by simp) hq (by simp [hm])
      (.after (calm_complete _ _ _) (idle_turn rfl))
  · exact hidle (idle_call rfl)

/-! ### Chains -/

/-- Closing a chain fails the request it finds pending, and nothing else. -/
theorem same_closeChain (w : World) (chain : Ref) (status : ℕ) (now : Time) :
    Same (match w.pending chain with
      | none => w
      | some r => w.setStatus r .failed) (closeChain w chain status now) := by
  cases hc : w.chainObjs[chain]? with
  | none =>
    rw [World.pending, closeChain, hc]
    exact .refl w
  | some c =>
    rw [World.pending, closeChain_eq hc, hc, Option.bind_some]
    cases c.currentStage.bind fun j => w.request (compactStageRequestId c.chainId j) with
    | none => exact ⟨rfl, rfl, rfl⟩
    | some r =>
      cases ht : w.requestTerminal r with
      | true =>
        simp only [Option.filter_some, ht, Bool.not_true, if_true]
        exact ⟨rfl, rfl, rfl⟩
      | false =>
        simp only [Option.filter_some, ht, Bool.not_false, if_true]
        have h := same_mark (w.modifyChain chain (Chain.close status now)) r .failed
        exact ⟨h.objs, h.reservations, h.terminal⟩

theorem ending_reserves (h : ending e w i t = some chain) (n : Id) :
    holds? (reserving n) t = 0 := by
  unfold ending at h
  split at h
  · rfl
  · rfl
  · rfl
  · cases h

theorem ending_finishes (h : ending e w i t = some chain) :
    ∀ x ∈ t, x.finishes = none := by
  unfold ending at h
  split at h
  · simp
  · rintro x ⟨⟩
    exact finishes_resume rfl
  · rintro x ⟨⟩
    exact finishes_resume rfl
  · cases h

/-- A segment that closes a chain. -/
theorem closeChain_booking {w₁ : World} (hc : ending e w i t = some chain) (h : Same w w₁)
    (hp : w₁.pending chain = w.pending chain) {status : ℕ} {now : Time}
    (hs : Idle Calm (closeChain w₁ chain status now) s) : Booking o e i t w s := by
  have hclose := same_closeChain w₁ chain status now
  cases hr : w.pending chain with
  | none =>
    rw [hp, hr] at hclose
    have hk : ∀ a k, t = some (.resume a k) → k.reserves = none := by
      rintro a k rfl
      cases hr : k.reserves with
      | none => rfl
      | some n => simpa [reserving, Task.cont, hr] using ending_reserves hc n
    refine .plain ((h.trans hclose).calm.trans hs.rel) (fun n => ?_) hk (ending_finishes hc)
    rw [hs.unheld n, ending_reserves hc n]
  | some r =>
    rw [hp, hr] at hclose
    exact .closed hc hr (.after ((h.modify r _).trans hclose).calm hs)

/-- A chain without a current stage has nothing pending. -/
theorem calm_closeFresh {ch : Chain} (hch : w.chainObjs[chain]? = some ch)
    (hc : ch.currentStage = none) (status : ℕ) (now : Time) :
    Calm w (closeChain w chain status now) := by
  have h := same_closeChain w chain status now
  have hp : w.pending chain = none := by rw [World.pending, hch, Option.bind_some, hc]; rfl
  rw [hp] at h
  exact h.calm

theorem matchChain_idle {socket : Bool} {j : ℕ} :
    Idle Calm w (matchChain o e w requester frame socket j) := by
  unfold matchChain
  simp only
  split
  · exact idle_answer
  · exact idle_answer
  split
  · exact checkStage_idle
  have hp : Same w (pruneChains o w).1 := ⟨rfl, rfl, rfl⟩
  split
  · exact .after hp.calm idle_answer
  have he : Same w (enterChain (pruneChains o w).1 requester frame socket e.now) := ⟨rfl, rfl, rfl⟩
  refine .after he.calm ?_
  unfold dispatchChainStage
  have hget : (enterChain (pruneChains o w).1 requester frame socket e.now).chainObjs[
      w.chainObjs.length]? = some ⟨frame.i, requester, frame, socket, e.now, .running, none,
        fun _ => none, fun _ => none, none⟩ := by simp [enterChain, pruneChains]
  rw [hget]
  simp only
  split
  · exact .after (calm_closeFresh hget rfl _ _) afterDispatch_idle
  split
  · exact .after (calm_closeFresh hget rfl _ _) afterDispatch_idle
  · exact idle_turn rfl

theorem matchChainStage_booking {c : Command} {j : ℕ}
    (ht : t = some (.resume a (.stageMatched c chain j))) :
    Booking o e i t w (matchChainStage o e w c chain j) := by
  have hidle : ∀ {s : Step}, Idle Calm w s → Booking o e i t w s := fun h => h.resumed ht rfl rfl
  unfold matchChainStage
  split
  · exact hidle (idle_nil (.refl w))
  next ch hch =>
  split
  · exact hidle idle_answer
  · next hoff =>
    refine closeChain_booking ?_ (.refl w) rfl afterDispatch_idle
    rw [ht, ending, hoff]
  · have hp := (plain_prune o w).same.calm
    split
    · exact hidle (.after hp idle_answer)
    split
    · exact hidle (.after hp idle_answer)
    · exact hidle (.after (hp.trans (calm_sendChainStage chain ch j _)) afterDispatch_idle)

theorem storeStageResult_booking
    (ht : t = some (.resume a (.stageCompleted provider frame r chain))) :
    Booking o e i t w (storeStageResult e w provider frame r chain) := by
  have hidle : ∀ {s : Step}, Idle Calm w s → Booking o e i t w s := fun h => h.resumed ht rfl rfl
  unfold storeStageResult
  split
  · next st ch hst hch =>
    simp only
    generalize hw₁ : World.emit _ _ = w₁
    have hsame : Same w w₁ := by rw [← hw₁]; exact ⟨rfl, rfl, rfl⟩
    have hpend : w₁.pending chain = w.pending chain := by
      rw [← hw₁]
      exact pending_store w chain st.stageIndex ⟨frame, provider⟩ _
    have hends : ch.ends e frame st.stageIndex → ending e w i t = some chain := fun h => by
      rw [ht, ending, hst, hch]
      exact if_pos h
    have hclose : ∀ status {s}, ch.ends e frame st.stageIndex →
        Idle Calm (closeChain w₁ chain status e.now) s → Booking o e i t w s := fun status _ h hs =>
      closeChain_booking (hends h) hsame hpend hs
    split
    · next hf => exact hclose 200 (by simp [Chain.ends, hf]) idle_answer
    split
    · have hget : w₁.chainObjs[chain]? = some (ch.store st.stageIndex ⟨frame, provider⟩) := by
        rw [← hw₁]
        simp only [World.emit, World.modifyChain, List.getElem?_modify_eq, hch]
        rfl
      unfold dispatchChainStage
      rw [hget]
      simp only
      split
      · next hd =>
        have hd' : e.canDispatch ch.requester = false := by simpa [Chain.store] using hd
        exact hclose 403 (by simp [Chain.ends, hd']) afterDispatch_idle
      split
      · next hd =>
        have hd' : (ch.frame.stages[st.stageIndex + 1]?).join = none := hd
        exact hclose 400 (by simp [Chain.ends, hd']) afterDispatch_idle
      · exact hidle (.after hsame.calm (idle_turn rfl))
    · next hlast =>
      exact hclose 200 (by simp only [Chain.ends, decide_eq_true_eq]; omega) idle_answer
  · exact hidle (idle_nil (.refl w))

/-! ### Request status -/

theorem afterRead_idle {id : Id} : Idle Calm w
    (if (w.objs[r]?).any fun q => q.mode = .fast then
      expireFastRequest o w r e.now (.statusAnswer (.requestStatus requester id) (some r))
    else answer w (.requestStatus requester id) (some r) 409
      (some "request_status_requires_fast_need")) := by
  split
  · exact expireFastRequest_idle rfl
  · exact idle_answer

theorem readStatus_booking {id : Id} (ht : t = some (.resume a (.statusRead requester id r))) :
    Booking o e i t w (readStatus e w requester id r a.need) := by
  unfold readStatus
  simp only
  split
  · next d hd =>
    have ha : a = .record (some d) := by
      cases a with
      | record r => exact congrArg Awaited.record hd
      | _ => cases hd
    subst ha
    split
    · next hs => exact .adopted ht hs (.after (same_mark w r d.status).calm afterRead_idle)
    · exact afterRead_idle.resumed ht rfl rfl
  · exact afterRead_idle.resumed ht rfl rfl

/-! ### Segments -/

theorem onFault_booking {f : Fault} (ht : t = some (.resume (.fault f) k)) (hs : Shape o w k) :
    Booking o e i t w (onFault w f k) := by
  cases hk : k.reserves with
  | none =>
    subst ht
    refine (onFault_idle hs hk).plain ?_ ?_ <;> rintro x ⟨⟩
    · exact hk
    · rfl
  | some n =>
    cases k with
    | fastNeedAdmitted q frame m p => exact .refunded ht ⟨rfl, rfl, rfl⟩
    | _ => cases hk

theorem proceed_booking (hw : Wf w) (ht : t = some (.resume a k)) (ha : a.failed = false)
    (hs : Shape o w k) : Booking o e i t w (proceed o e w a k) := by
  cases k with
  | fastNeedSwept q frame n p => exact admitFastNeed_booking ht
  | fastNeedAdmitted q frame n p => exact dispatchFastNeed_booking ht ha
  | legacyNeedAdmitted m p => exact dispatchLegacyNeed_idle.resumed ht rfl rfl
  | resultChecked p frame r => exact checkResult_booking hw ht
  | resultCommitted p frame r => exact .completed ht (calm_complete r p e.now)
  | resultCompleted p frame r => exact .delivered ht ha
  | legacyResultCommitted m r =>
    exact .completedLegacy ht ha (.after (calm_complete r m.sender e.now) (idle_turn rfl))
  | legacyResultCompleted m r => exact deliverLegacyResult_idle.resumed ht rfl rfl
  | chainMatched q frame s j => exact matchChain_idle.resumed ht rfl rfl
  | stageMatched c chain j => exact matchChainStage_booking ht
  | stageCompleted p frame r chain => exact storeStageResult_booking ht
  | statusRead q id r => exact readStatus_booking ht
  | _ => exact (proceed_idle hs rfl).resumed ht rfl rfl

theorem startCommand_booking (c : Command) : Booking o e i none w (startCommand o e w c) := by
  cases c with
  | legacyResult m => exact startLegacyResult_booking
  | _ => exact (startCommand_idle (by simp)).plain (by simp) (by simp)

/-- A task that goes on holds what it held. -/
theorem reserving_cont {x y : Task} (h : x.cont = y.cont) (n : Id) : reserving n x = reserving n y := by
  rw [reserving, reserving, h]

theorem held_same {x y : Task} (h : x.cont = y.cont) (n : Id) :
    held (reserving n) [x] = holds? (reserving n) (some y) := by
  rw [held_cons, held_nil, holds?_some, reserving_cont h n, Nat.add_zero]

/-- BOOKING: what the machine does to the reservations is of one of the kinds. -/
theorem booking_of_machine (hw : Wf w) (ht : ∀ x ∈ t, Fits o w x) {x : Input × Env o}
    {ts : List Task} (h : machine o w t x = some (w', ts)) :
    Booking o x.2 x.1 t w (w', ts) := by
  obtain ⟨x, e⟩ := x
  have hnone : ∀ {v : World}, Same w v → Booking o e x none w (v, []) := fun hv =>
    .plain hv.calm (fun _ => rfl) (by simp) (by simp)
  cases t with
  | none =>
    cases x with
    | start c => exact Option.some.inj h ▸ startCommand_booking c
    | chainTimeout chain =>
      cases h
      unfold chainTimeout
      split
      · exact hnone (.refl w)
      · next hrun =>
        exact closeChain_booking (if_neg hrun) (.refl w) rfl (idle_nil (.refl _))
    | takeEvents n l f k =>
      cases h
      exact .taken rfl rfl
    | evict n =>
      cases h
      exact .evicted rfl rfl
    | peer _ _ | resultWaitTimeout _ | setFastWaiter _ _ | setLegacyWaiter _ _ =>
      cases h
      exact hnone ⟨rfl, rfl, rfl⟩
    | _ => cases h
  | some y =>
    have hy := ht y rfl
    cases y with
    | call c k =>
      have hkept : ∀ {v : World} {a}, Same w v →
          Booking o e x (some (.call c k)) w (v, [.resume a k]) := fun hv =>
        .plain hv.calm (held_same rfl) (by simp) (by rintro _ ⟨⟩; rfl)
      cases x with
      | exec =>
        cases h
        exact hkept ⟨rfl, rfl, rfl⟩
      | lose f =>
        obtain ⟨-, h⟩ := Option.ite_none_right_eq_some.mp h
        cases h
        exact hkept ⟨rfl, rfl, rfl⟩
      | giveUp f =>
        obtain ⟨-, h⟩ := Option.ite_none_right_eq_some.mp h
        cases h
        refine .plain (.refl w) (fun n => ?_) (by simp) (by rintro _ ⟨⟩; rfl)
        have : reserving n (.call c .done) = 0 := rfl
        rw [held_cons, held_cons, held_nil, this, holds?_some]
        exact reserving_cont rfl n
      | fail f =>
        obtain ⟨-, h⟩ := Option.ite_none_right_eq_some.mp h
        cases h
        exact hkept (.refl w)
      | _ => cases h
    | read id k =>
      have hkept : ∀ {a}, Booking o e x (some (.read id k)) w (w, [.resume a k]) :=
        .plain (.refl w) (held_same rfl) (by simp) (by rintro _ ⟨⟩; rfl)
      cases x with
      | read age =>
        cases h
        exact hkept
      | fail f =>
        obtain ⟨-, h⟩ := Option.ite_none_right_eq_some.mp h
        cases h
        exact hkept
      | _ => cases h
    | resume a k =>
      cases x with
      | go =>
        have hs : Shape o w k := Fits.shape hy
        have h := Option.some.inj h
        cases a with
        | fault f => exact h ▸ onFault_booking rfl hs
        | _ => exact h ▸ proceed_booking hw rfl rfl hs
      | _ => cases h

end Truyn.Relay
