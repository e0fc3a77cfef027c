import Truyn.Relay.Status

/-! relay:idle | the segments that only look, wait, refuse and end requests

    Most handler parts write next to nothing: they answer, await, prune, expire, cancel, and hand
    over frames and cancellations, which are checked for room. A relation between worlds that
    contains these few writes (`Minor`) contains every such part (`Idle`), and leaves no admission
    suspended that holds a reservation. -/

namespace Truyn.Relay
open Async Cas
open Ledger (Fault NeedStatus Time Record Answer Awaited Call)

/-- The node whose reservation is held by an admission that is not finished. -/
def Cont.reserves : Cont → Option Id
  | .fastNeedAdmitted requester _ _ _ => some requester
  | _ => none

/-- Nothing that is kept for requests and nodes differs. -/
structure Plain (w w' : World) : Prop where
  objs : w'.objs = w.objs
  reservations : w'.fastTerminalReservations = w.fastTerminalReservations
  terminal : w'.fastTerminalEvents = w.fastTerminalEvents
  events : w'.events = w.events
  fast : w'.fastEvents = w.fastEvents
  log : w'.log = w.log

theorem Plain.refl (w : World) : Plain w w := ⟨rfl, rfl, rfl, rfl, rfl, rfl⟩

theorem plain_prune (o : Options) (w : World) : Plain w (pruneRequests o w).1 :=
  ⟨rfl, rfl, rfl, rfl, rfl, rfl⟩

theorem plain_finish (w : World) (id : Id) : Plain w (w.finishResultWaiter id).1 := by
  unfold World.finishResultWaiter
  split <;> exact ⟨rfl, rfl, rfl, rfl, rfl, rfl⟩

/-- A relation that contains what most segments write. -/
class Minor (R : World → World → Prop) : Prop where
  refl : ∀ w, R w w
  trans : ∀ {u v w}, R u v → R v w → R u w
  plain : ∀ {w w'}, Plain w w' → R w w'
  answered : ∀ w c r status error, R w (w.emit (.answered c r status error))
  expired : ∀ w r now, R w (failExpired w r now)
  cancelled : ∀ w r now id, R w ((((w.markRequestStatus r .cancelled).modify r fun q =>
    { q with cancelledAt := some now }).releaseFastTerminal r).finishResultWaiter id).1
  revoked : ∀ o (e : Env o) w q id, R w (w.queueCancellation o e q (.REVOKE id)).1
  streamed : ∀ o (e : Env o) w q r frame, R w (deliverPartial o e w q r frame).1
  advanced : ∀ w r n frame transport now, R w (w.modify r fun q => q.advance n frame transport now)

variable {o : Options} {e : Env o} {i : Input} {t : Option Task} {w w' : World} {s : Step}
variable {R : World → World → Prop}

/-- A segment that moves along `R` and leaves no admission suspended. -/
structure Idle (R : World → World → Prop) (w : World) (s : Step) : Prop where
  rel : R w s.1
  free : ∀ x ∈ s.2, x.cont.reserves = none

theorem idle_nil (h : R w w') : Idle R w (w', []) := ⟨h, fun _ h => absurd h List.not_mem_nil⟩

variable [Minor R]

theorem Idle.after (h : R w w') (h' : Idle R w' s) : Idle R w s :=
  ⟨Minor.trans h h'.rel, h'.free⟩

theorem idle_stay : Idle R w (w, []) := idle_nil (Minor.refl w)

theorem idle_one {x : Task} (h : x.cont.reserves = none) : Idle R w (w, [x]) :=
  ⟨Minor.refl w, fun y hy => by rwa [List.mem_singleton.mp hy]⟩

variable {id requester provider : Id} {c : Command} {k : Cont} {r : Ref} {frame : Frame}
  {m : Envelope} {durable : Option Record}

theorem idle_answer {r : Option Ref} {status : ℕ} {error : Option String} :
    Idle R w (answer w c r status error) :=
  idle_nil (Minor.answered w c r status error)

theorem idle_turn (hk : k.reserves = none) : Idle R w (turn w k) := idle_one hk

theorem idle_need (hk : k.reserves = none) : Idle R w (awaitNeed w id k) := by
  refine idle_one ?_
  split <;> exact hk

theorem idle_call {c : Call} (hk : k.reserves = none) : Idle R w (awaitCall w c k) := by
  refine idle_one ?_
  split <;> exact hk

theorem reserves_of_checks (h : k.checks) : k.reserves = none := by
  cases k with
  | sweep | done | fastNeedSwept | resultChecked | revokeChecked | statusAnswer | partialChecked => rfl
  | _ => cases h

theorem expireFastRequest_idle {now : Time} (hk : k.reserves = none) :
    Idle R w (expireFastRequest o w r now k) := by
  unfold expireFastRequest
  split
  · exact idle_turn hk
  split
  · split
    · exact idle_one rfl
    · exact .after (Minor.expired w r now) (idle_turn hk)
  · exact idle_turn hk

theorem sweepNext_idle {now : Time} (hk : k.reserves = none) :
    Idle R w (sweepNext o e w now k) := by
  unfold sweepNext
  split
  · exact idle_turn hk
  split
  · exact expireFastRequest_idle rfl
  · exact idle_turn hk

theorem expireAbandoned_idle {force : Bool} (hk : k.reserves = none) :
    Idle R w (expireAbandonedFastRequests o e w force k) := by
  unfold expireAbandonedFastRequests
  split
  · exact idle_turn hk
  · have h : Plain w { w with lastExpirySweepAt := e.now } := ⟨rfl, rfl, rfl, rfl, rfl, rfl⟩
    exact .after (Minor.plain h) (sweepNext_idle hk)

theorem startFastNeed_idle {waitMs : ℕ} :
    Idle R w (startFastNeed e w requester frame waitMs) := by
  unfold startFastNeed
  split
  · exact idle_answer
  split
  · exact idle_answer
  · exact idle_need rfl

theorem startLegacyNeed_idle : Idle R w (startLegacyNeed e w m) := by
  unfold startLegacyNeed
  split
  · exact idle_answer
  split
  · exact idle_answer
  split
  · exact idle_answer
  · exact idle_need rfl

theorem noOffer_idle : Idle R w (noOffer o w c) := by
  unfold noOffer
  split <;> exact idle_answer

/-- An admission waits for the ledger, or for its turn. -/
theorem admitDirectNeedId_cases {window : Bool} {c : Call}
    (h : admitDirectNeedId o w id window c k = .ok s) :
    Plain w s.1 ∧ ∃ x, s.2 = [x] ∧ x.cont = k := by
  unfold admitDirectNeedId at h
  split at h
  · cases h
  split at h
  · cases h
  split at h
  · cases h
  split at h
  · cases h
    exact ⟨.refl w, _, rfl, rfl⟩
  · cases h
    exact ⟨⟨rfl, rfl, rfl, rfl, rfl, rfl⟩, _, rfl, rfl⟩

theorem admitLegacyNeed_idle :
    Idle R w (admitLegacyNeed o e w m provider) := by
  have hp : R w (pruneRequests o w).1 := Minor.plain (plain_prune o w)
  unfold admitLegacyNeed
  split
  · split
    · next h =>
      obtain ⟨hs, x, hx, hk⟩ := admitDirectNeedId_cases h
      refine ⟨Minor.trans hp (Minor.plain hs), fun y hy => ?_⟩
      rw [hx, List.mem_singleton] at hy
      rw [hy, hk]
      rfl
    · exact .after hp idle_answer
  · exact .after hp idle_answer

theorem recoverResult_idle {mode json : JsString} :
    Idle R w (recoverResult o w c id provider mode json durable) := by
  unfold recoverResult
  split
  · exact idle_answer
  split
  · exact idle_answer
  split
  · exact idle_answer
  split
  · exact idle_call rfl
  · exact idle_answer

theorem startFastResult_idle :
    Idle R w (startFastResult e w provider frame) := by
  unfold startFastResult
  simp only
  split
  · exact idle_answer
  split
  · exact idle_need rfl
  split
  · exact idle_answer
  split
  · exact idle_answer
  · exact expireFastRequest_idle rfl

theorem checkStage_idle {socket : Bool} {j : ℕ} :
    Idle R w (checkStage w requester frame socket j) := by
  unfold checkStage
  split
  · exact idle_answer
  · exact idle_turn rfl

theorem startChain_idle {socket : Bool} :
    Idle R w (startChain e w requester frame socket) := by
  unfold startChain
  simp only
  split
  · exact idle_answer
  split
  · exact idle_answer
  split
  · exact idle_answer
  split
  · exact idle_answer
  · exact checkStage_idle

theorem afterDispatch_idle : Idle R w (afterDispatch w c) := by
  unfold afterDispatch
  split
  · exact idle_answer
  · exact idle_stay

theorem revokeNeed_idle {r : Option Ref} : Idle R w (revokeNeed e w m r) := by
  unfold revokeNeed
  split
  · exact idle_need rfl
  · exact expireFastRequest_idle rfl

theorem startRevoke_idle : Idle R w (startRevoke e w m) := by
  unfold startRevoke
  split
  · exact idle_answer
  split
  · exact revokeNeed_idle
  · split
    · exact idle_answer
    · exact idle_turn rfl
  · exact idle_stay

theorem recoverRevoke_idle :
    Idle R w (recoverRevoke w m durable) := by
  unfold recoverRevoke
  split
  · exact idle_answer
  split
  · exact idle_answer
  · exact idle_call rfl

theorem deliverCancellation_idle {q : Request} :
    Idle R w (deliverCancellation o e w m r q) := by
  have h : R w (w.queueCancellation o e q (.REVOKE m.targetId)).1 := Minor.revoked o e w q m.targetId
  unfold deliverCancellation
  split <;> exact .after h idle_answer

theorem checkRevoke_idle : Idle R w (checkRevoke o e w m r) := by
  unfold checkRevoke
  split
  · exact idle_answer
  split
  · exact idle_answer
  split
  · exact idle_answer
  split
  · exact idle_answer
  · exact idle_answer
  · exact deliverCancellation_idle
  · exact idle_call rfl

theorem commitRevoke_idle : Idle R w (commitRevoke o e w m r) := by
  unfold commitRevoke
  split
  · exact idle_stay
  · exact .after (Minor.cancelled w r e.now m.targetId) deliverCancellation_idle

theorem startStatus_idle : Idle R w (startStatus w requester id) := by
  unfold startStatus
  simp only
  split
  · split
    · exact idle_need rfl
    · exact idle_answer
  split
  · exact idle_answer
  split
  · exact idle_answer
  · exact idle_need rfl

theorem startFastPartial_idle :
    Idle R w (startFastPartial e w provider frame) := by
  unfold startFastPartial
  simp only
  split
  · exact idle_answer
  split
  · exact idle_need rfl
  split
  · exact idle_answer
  split
  · exact idle_answer
  · exact expireFastRequest_idle rfl

theorem recoverPartial_idle :
    Idle R w (recoverPartial o w provider frame durable) := by
  unfold recoverPartial
  simp only
  split
  · exact idle_answer
  split
  · exact idle_answer
  split
  · exact idle_answer
  split
  · split
    · exact idle_call rfl
    · exact idle_answer
  · exact idle_answer

theorem checkPartial_idle :
    Idle R w (checkPartial w provider frame r) := by
  unfold checkPartial
  simp only
  split
  · exact idle_answer
  split
  · exact idle_answer
  split
  · exact idle_answer
  split
  · exact idle_answer
  split
  · split
    · exact idle_call rfl
    · exact idle_answer
  split
  · exact idle_answer
  · exact idle_call rfl

theorem commitPartial_idle {n : ℕ} :
    Idle R w (commitPartial o e w provider frame r n) := by
  unfold commitPartial
  simp only
  split
  · exact idle_stay
  next q hq =>
  have h : R w (deliverPartial o e w q r frame).1 := Minor.streamed o e w q r frame
  split
  · exact .after h idle_answer
  · refine .after (Minor.trans h (Minor.trans ?_ (Minor.advanced _ r n frame _ e.now))) idle_answer
    split
    · exact Minor.plain (plain_finish _ _)
    · exact Minor.refl _

/-! ### All of them -/

/-- Places whose segments write more. -/
def Cont.writes : Cont → Bool
  | .fastNeedSwept _ _ _ _ | .fastNeedAdmitted _ _ _ _ | .legacyNeedAdmitted _ _ => true
  | .resultChecked _ _ _ | .resultCommitted _ _ _ | .resultCompleted _ _ _ => true
  | .legacyResultCommitted _ _ | .legacyResultCompleted _ _ | .statusRead _ _ _ => true
  | .chainMatched _ _ _ _ | .stageMatched _ _ _ | .stageCompleted _ _ _ _ => true
  | _ => false

theorem proceed_idle {a : Awaited} (hs : Shape o w k) (hk : k.writes = false) :
    Idle R w (proceed o e w a k) := by
  cases k with
  | fastNeedLooked q frame n =>
    simp only [proceed]
    split
    · exact idle_answer
    split
    · exact idle_answer
    · exact idle_turn rfl
  | fastNeedMatched q frame n =>
    simp only [proceed]
    split
    · exact idle_answer
    · exact noOffer_idle
    · exact expireAbandoned_idle rfl
  | legacyNeedLooked m =>
    simp only [proceed]
    split
    · exact idle_answer
    split
    · exact idle_answer
    split
    · exact idle_answer
    · exact idle_turn rfl
  | legacyNeedMatched m =>
    simp only [proceed]
    split
    · exact idle_answer
    · exact noOffer_idle
    · exact admitLegacyNeed_idle
  | expire r now k =>
    exact Idle.after (Minor.expired w r now) (idle_turn (reserves_of_checks hs.2.2))
  | sweep now k => exact sweepNext_idle (reserves_of_checks hs.2)
  | done => exact idle_stay
  | resultLooked p frame => exact recoverResult_idle
  | resultRecovered c => exact idle_answer
  | legacyResultLooked m => exact recoverResult_idle
  | revokeLooked m r =>
    simp only [proceed]
    split
    · exact revokeNeed_idle
    · exact idle_stay
  | revokeRecovered m => exact recoverRevoke_idle
  | revokeTransitioned m => exact idle_answer
  | revokeChecked m r => exact checkRevoke_idle
  | revokeCommitted m r => exact commitRevoke_idle
  | statusAnswer c r => exact idle_answer
  | partialLooked p frame => exact recoverPartial_idle
  | partialRecovered c => exact idle_answer
  | partialChecked p frame r => exact checkPartial_idle
  | partialRetried p frame r => exact idle_answer
  | partialCommitted p frame r n =>
    simp only [proceed]
    split
    · exact idle_answer
    · exact commitPartial_idle
  | _ => cases hk

/-- A refused await. -/
theorem onFault_idle {f : Fault} (hs : Shape o w k) (hk : k.reserves = none) :
    Idle R w (onFault w f k) := by
  unfold onFault
  split
  · next r now k => exact idle_turn (reserves_of_checks hs.2.2)
  · cases hk
  split
  · exact idle_answer
  · exact idle_stay

theorem startCommand_idle (hc : ∀ m, c ≠ .legacyResult m) :
    Idle R w (startCommand o e w c) := by
  cases c with
  | fastNeed q frame n => exact startFastNeed_idle
  | legacyNeed m => exact startLegacyNeed_idle
  | fastResult p frame => exact startFastResult_idle
  | legacyResult m => exact absurd rfl (hc m)
  | fastPartial p frame => exact startFastPartial_idle
  | revoke m => exact startRevoke_idle
  | requestStatus q id => exact startStatus_idle
  | chain q frame s => exact startChain_idle
  | sweep force => exact expireAbandoned_idle rfl

end Truyn.Relay
