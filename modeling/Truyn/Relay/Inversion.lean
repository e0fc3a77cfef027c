import Truyn.Relay.Segments

/-! relay:inversion | every segment is of one of its kinds

    One lemma for each handler part, in the order of the handlers, and from them `segment_cases`. -/

namespace Truyn.Relay
open Async Cas
open Ledger (Fault NeedStatus Time Record Answer Awaited Call sequenceMismatch)

variable {o : Options} {e : Env o} {i : Input} {t : Option Task} {w : World}

variable {requester id provider requestId : Id} {waitMs j : ℕ} {r : Ref} {now : Time} {k : Cont}
  {frame : Frame} {m : Envelope} {c : Command} {a : Awaited} {durable : Option Record}
  {socket : Bool}

/-! ### Expiry -/

theorem expireFastRequest_wait (hs : Shape o w k) (hk : k.checks) :
    Wait o w (expireFastRequest o w r now k) := by
  unfold expireFastRequest
  split
  · exact wait_check hs hk
  next q hq =>
  split
  · next hx =>
    simp only [Request.expired, decide_eq_true_eq, Bool.decide_and, Bool.and_eq_true] at hx
    split
    · next hl =>
      have hv := view_of_get hq
      exact wait_one ⟨⟨hl, ⟨⟨_, hv, hx.1⟩, hs, hk⟩, _, hv, rfl⟩, trivial⟩
    · next hl =>
      have hq := quiet_expired now (by simpa using hl) hq hx.1 hx.2.1
      exact .after hq (wait_check (hq.keeps.shape hs) hk)
  · exact wait_check hs hk

theorem sweepNext_wait (hs : Shape o w k) (hk : k.checks) :
    Wait o w (sweepNext o e w now k) := by
  unfold sweepNext
  split
  · exact wait_check hs hk
  split
  · exact expireFastRequest_wait ⟨hs, hk⟩ hk
  · exact wait_check hs hk

theorem expireAbandoned_wait {force : Bool} (hs : Shape o w k) (hk : k.checks) :
    Wait o w (expireAbandonedFastRequests o e w force k) := by
  unfold expireAbandonedFastRequests
  split
  · exact wait_check hs hk
  · have hq : Quiet w { w with lastExpirySweepAt := e.now } := (aside_set w).quiet
    exact .after hq (sweepNext_wait (hq.keeps.shape hs) hk)

/-! ### NEED -/

theorem refuseFast_none {n : Id} {d : Bool} {ty : FrameType}
    (h : refuseFast e n d frame ty = none) : o.nodeIdFromPublicKey frame.key = n := by
  unfold refuseFast at h
  split at h
  · cases h
  next key hkey =>
  split at h
  · cases h
  split at h
  · cases h
  next hv =>
  unfold verifyCompactFrame at hv
  split at hv
  · cases hv
  split at hv
  · cases hv
  · next hk => exact not_not.mp hk ▸ e.keys n key hkey

theorem startFastNeed_wait :
    Wait o w (startFastNeed e w requester frame waitMs) := by
  unfold startFastNeed
  split
  · exact wait_refuse
  split
  · exact wait_refuse
  · exact wait_need trivial trivial rfl rfl rfl (by simp)

theorem startLegacyNeed_wait : Wait o w (startLegacyNeed e w m) := by
  unfold startLegacyNeed
  split
  · exact wait_refuse
  split
  · exact wait_refuse
  split
  · exact wait_refuse
  · exact wait_need trivial trivial rfl rfl rfl (by simp)

theorem noOffer_wait : Wait o w (noOffer o w c) := by
  unfold noOffer
  split <;> exact wait_refuse

/-- `admitDirectNeedId` refuses, asks the ledger, or remembers an id it has not seen. -/
theorem admit_segment {w₁ : World} {fp capability mode : JsString} {window : Bool} {s : Step}
    (hq : Quiet w w₁) (hk : k.admits = some id)
    (h : admitDirectNeedId o w₁ id window (reservation id requester provider fp capability mode) k
      = .ok s) : Segment o i t w s := by
  have hshape : ∀ w', Shape o w' k ∧ Fresh w' k ∧ k.expires = false ∧
      ∀ c', c'.id = id → Asked w' (.reserveNeed c') k := by
    intro w'
    cases k <;> cases hk <;> refine ⟨trivial, trivial, rfl, fun c' hc' => ?_⟩ <;>
    · intro id hid
      cases hid
      exact ⟨c', rfl, hc'⟩
  unfold admitDirectNeedId at h
  split at h
  · cases h
  next hdup =>
  split at h
  · cases h
  next hcap =>
  split at h
  · cases h
  split at h
  · next hl =>
    cases h
    exact .wait (.after hq (wait_one ⟨⟨hl, (hshape w₁).1, (hshape w₁).2.2.2 _ rfl⟩,
      (hshape w₁).2.1⟩))
  · next hl =>
    cases h
    have hnone : w₁.ledger = none := by simpa using hl
    simp only [hnone, Option.isNone_none, true_and, not_or, not_le] at hdup hcap
    exact .remembered hk (hq.ledger ▸ hnone) hq hdup.2 hcap (.refl _)

theorem reserve_quiet {nodeId : Id} {w' : World} (h : w.reserveFastTerminal o nodeId = some w') :
    Quiet w w' := by
  unfold World.reserveFastTerminal at h
  split at h
  · cases h
  · cases h
    exact (aside_set w).quiet

theorem admitFastNeed_segment :
    Segment o i t w (admitFastNeed o w requester frame waitMs provider) := by
  unfold admitFastNeed
  split
  · exact .refuse
  next w₁ hw₁ =>
  have hq : Quiet w (pruneRequests o w₁).1 := (reserve_quiet hw₁).trans (quiet_pruneRequests o w₁)
  split
  · split
    · next h => exact admit_segment hq rfl h
    · exact .wait (.after (hq.trans (quiet_unreserve _ _)) wait_refuse)
  · exact .wait (.after (hq.trans (quiet_unreserve _ _)) wait_refuse)

theorem admitLegacyNeed_segment :
    Segment o i t w (admitLegacyNeed o e w m provider) := by
  have hq := quiet_pruneRequests o w
  unfold admitLegacyNeed
  split
  · split
    · next h => exact admit_segment hq rfl h
    · exact .wait (.after hq wait_refuse)
  · exact .wait (.after hq wait_refuse)

theorem dispatchFastNeed_segment
    (ht : t = some (.resume a (.fastNeedAdmitted requester frame waitMs provider)))
    (ha : a.failed = false) :
    Segment o i t w (dispatchFastNeed o e w requester frame waitMs provider) := by
  unfold dispatchFastNeed
  split
  · exact .refuse
  next hfree =>
  simp only
  have hd : (newRequest frame.i requester provider (frame.capability.getD []) e.now .fast
    none).direct := ⟨_, _, _, _, _, .fast, by simp, rfl⟩
  generalize hw₁ : (if 0 < waitMs then _ else _ : World) = w₁
  have h₁ : Aside (w.markMatchedRequest (newRequest frame.i requester provider
      (frame.capability.getD []) e.now .fast none)) w₁ := by
    rw [← hw₁]
    split
    · exact aside_set _
    · exact .refl _
  rcases queueFast_cases o e w₁ provider (.NEED frame.i requester) false with ⟨-, hb, -⟩ | ⟨-, h₂⟩
  · cases hb
  have h₃ := (h₁.quiet.emit h₁.log _).trans h₂.quiet
  split
  · exact .dispatched ht ha rfl (eq_false_of_ne_true hfree) hd (h₃.trans (quiet_emit _ rfl))
  · exact .dispatched ht ha rfl (eq_false_of_ne_true hfree) hd h₃

theorem dispatchLegacyNeed_segment (ht : t = some (.resume a (.legacyNeedAdmitted m provider)))
    (ha : a.failed = false) :
    Segment o i t w (dispatchLegacyNeed o e w m provider) := by
  unfold dispatchLegacyNeed
  split
  · exact .refuse
  next hfree =>
  have hd : (newRequest m.id m.sender provider (m.capability.getD []) e.now .legacy
    none).direct := ⟨_, _, _, _, _, .legacy, by simp, rfl⟩
  obtain ⟨tr, h⟩ := quiet_queue o e (w.markMatchedRequest (newRequest m.id m.sender provider
    (m.capability.getD []) e.now .legacy none)) provider (.NEED m.id m.sender)
  exact .dispatched ht ha rfl (eq_false_of_ne_true hfree) hd (h.trans (quiet_emit _ rfl))

/-! ### RESULT -/

theorem recoverResult_wait {mode json : JsString} :
    Wait o w (recoverResult o w c id provider mode json durable) := by
  unfold recoverResult
  split
  · exact wait_refuse
  split
  · exact wait_refuse
  split
  · exact wait_refuse
  split
  · exact wait_call trivial (by simp [Asked, Cont.admits]) trivial rfl rfl
  · exact wait_refuse

theorem view_of_request (hw : Wf w) {q : Request} (hr : w.request id = some r)
    (hq : w.objs[r]? = some q) : q.core ∈ w.view r ∧ q.needId = id := by
  obtain ⟨q', hq', hid⟩ := hw.request hr
  cases (view_of_get hq).symm.trans hq'
  exact ⟨view_of_get hq, hid⟩

theorem startFastResult_wait (hw : Wf w) :
    Wait o w (startFastResult e w provider frame) := by
  unfold startFastResult
  split
  · exact wait_refuse
  next hkey =>
  split
  · exact wait_need trivial trivial rfl rfl rfl (by simp)
  next r hr =>
  split
  · exact wait_refuse
  next q hq =>
  split
  · exact wait_answer rfl
  next hp =>
  obtain ⟨hv, hid⟩ := view_of_request hw hr hq
  exact expireFastRequest_wait ⟨⟨_, hv, hid, not_not.mp hp⟩, refuseFast_none hkey⟩ rfl

/-- `completeRequest` sets the status and counts a success. -/
theorem quiet_complete (w : World) (r : Ref) (p : Id) (now : Time) :
    Quiet ((w.setStatus r .completed).emit (.succeeded p r)) (completeRequest w r p now) := by
  refine Quiet.emit ?_ ?_ _
  · refine (quiet_mark w r .completed).trans (Quiet.trans ?_ (quiet_modify_self _ r ?_))
    · exact (aside_set (w.markRequestStatus r .completed)).quiet
    · exact fun _ => rfl
  · exact mark_log w r .completed

theorem terminalRequestError_none {s : NeedStatus} (h : terminalRequestError s = none) :
    s = .matched := by
  cases s <;> first | rfl | cases h

theorem checkResult_segment (hs : Shape o w (.resultChecked provider frame r)) :
    Segment o i t w (checkResult w now provider frame r) := by
  obtain ⟨⟨q, hq, hid, hp⟩, hkey⟩ := hs
  unfold checkResult
  split
  · exact .refuse
  next q' hq' =>
  cases (view_of_get hq').symm.trans hq
  split
  · exact .wait (wait_answer rfl)
  next hm =>
  have hmatched := terminalRequestError_none hm
  split
  · next s hstage =>
    split
    · exact .wait (wait_answer rfl)
    next chain hchain =>
    split
    · exact .wait (wait_answer rfl)
    next hrun =>
    exact .completedStage hq hmatched hstage hp hkey hchain (by simpa using hrun)
      (quiet_complete w r provider now)
  · next hstage =>
    exact .wait (wait_call ⟨_, hq, hid, hp, hstage⟩ ⟨_, hq, rfl⟩ trivial rfl rfl)

theorem deliverFastResult_segment (ht : t = some (.resume a (.resultCompleted provider frame r)))
    (ha : a.failed = false) :
    Segment o i t w (deliverFastResult o e w provider frame r) := by
  unfold deliverFastResult
  split
  · exact .stay
  next q hq =>
  simp only
  have h₁ := quiet_release w r
  have hl₁ := release_log w r
  generalize w.releaseFastTerminal r = w₁ at h₁ hl₁ ⊢
  split
  · have h₂ := aside_finish w₁ q.needId
    refine .delivered ht ha rfl (((h₁.trans h₂.quiet).emit (h₂.log.trans hl₁) _).trans
      (quiet_emit _ rfl))
  · rcases queueFastTerminal_cases o e w₁ q.requester (.RESULT r (.frame frame)) with
      ⟨hfull, hsame⟩ | h₂
    · rw [if_pos hfull, hsame]
      exact .wait (.after h₁ (wait_answer rfl))
    · have h₃ := (h₁.emit hl₁ _).trans h₂
      split <;> exact .delivered ht ha rfl (h₃.trans (quiet_emit _ rfl))

theorem startLegacyResult_segment (hw : Wf w) :
    Segment o i t w (startLegacyResult e w m) := by
  unfold startLegacyResult
  split
  · exact .refuse
  split
  · exact .wait (wait_need trivial trivial rfl rfl rfl (by simp))
  next r hr =>
  split
  · exact .refuse
  next q hq =>
  split
  · exact .wait (wait_answer rfl)
  next hp =>
  split
  · exact .wait (wait_answer rfl)
  next hm =>
  obtain ⟨hv, hid⟩ := view_of_request hw hr hq
  split
  · next hmode =>
    obtain ⟨s, hs⟩ := Option.isSome_iff_exists.mp ((hw.stage r _ hv).mp hmode)
    exact .completedLegacyStage hv (terminalRequestError_none hm) hs (quiet_complete w r _ _)
  · next hmode =>
    have hs : q.core.stage = none := by simpa using (hw.stage r _ hv).not.mp hmode
    exact .wait (wait_call ⟨_, hv, hid, not_not.mp hp, hs⟩ ⟨_, hv, rfl⟩ trivial rfl rfl)

theorem deliverLegacyResult_segment (ht : t = some (.resume a (.legacyResultCompleted m r)))
    (ha : a.failed = false) :
    Segment o i t w (deliverLegacyResult o e w m r) := by
  unfold deliverLegacyResult
  split
  · exact .stay
  next q hq =>
  simp only
  have h₁ := quiet_modify_self w r (f := fun q => { q with result := some m }) fun _ => rfl
  obtain ⟨tr, h₂⟩ := quiet_queue o e (w.modify r fun q => { q with result := some m }) q.requester
    (.RESULT r (.envelope m))
  exact .delivered ht ha rfl (((h₁.emit rfl _).trans h₂).trans (quiet_emit _ rfl))

/-! ### Chains -/

/-- After a dispatch only an answer is left. -/
theorem afterDispatch_eq (w : World) (c : Command) :
    ∃ w', Quiet w w' ∧ afterDispatch w c = (w', []) := by
  unfold afterDispatch
  split
  · exact ⟨_, quiet_emit w rfl, rfl⟩
  · exact ⟨w, .refl w, rfl⟩

/-- A dispatch closes the chain or goes on to the matching of its stage. -/
theorem dispatchChainStage_cases (chain : Ref) (hc : chain < w.chainObjs.length) :
    (∃ status now w', status ≠ 200 ∧ Quiet (closeChain w chain status now) w' ∧
      dispatchChainStage e w c chain j = (w', [])) ∨
      dispatchChainStage e w c chain j = turn w (.stageMatched c chain j) := by
  unfold dispatchChainStage
  rw [List.getElem?_eq_getElem hc]
  simp only
  split
  · obtain ⟨w', hq, h⟩ := afterDispatch_eq (closeChain w chain 403 e.now) c
    exact .inl ⟨403, e.now, w', by simp, hq, h⟩
  split
  · obtain ⟨w', hq, h⟩ := afterDispatch_eq (closeChain w chain 400 e.now) c
    exact .inl ⟨400, e.now, w', by simp, hq, h⟩
  · exact .inr rfl

theorem checkStage_wait :
    Wait o w (checkStage w requester frame socket j) := by
  unfold checkStage
  split
  · exact wait_refuse
  · exact wait_turn trivial trivial rfl (by simp [Cont.asks]) rfl

theorem startChain_wait :
    Wait o w (startChain e w requester frame socket) := by
  unfold startChain
  simp only
  split
  · exact wait_refuse
  split
  · exact wait_refuse
  split
  · exact wait_refuse
  split
  · exact wait_refuse
  · exact checkStage_wait

/-- A chain as `startChain` enters it. -/
def newChain (requester : Id) (frame : Frame) (socket : Bool) (now : Time) : Chain :=
  { chainId := frame.i, requester := requester, frame := frame, socket := socket
    createdAt := now, status := .running, currentStage := none, providers := fun _ => none
    results := fun _ => none, completedAt := none }

/-- Closing a chain that has just been entered touches nothing else. -/
theorem closeChain_entered (requester : Id) (frame : Frame) (socket : Bool) (now now' : Time)
    {status : ℕ} (hs : status ≠ 200) :
    closeChain (enterChain w requester frame socket now) w.chainObjs.length status now' =
      ({ w with
        chains := insert w.chains frame.i w.chainObjs.length
        chainObjs := w.chainObjs ++ [{ newChain requester frame socket now with
          status := .failed, completedAt := some now' }] }).emit
        (.chainResult w.chainObjs.length status) := by
  unfold closeChain enterChain
  simp only [List.getElem?_concat_length, Option.bind_none, World.modifyChain, World.emit, newChain]
  rw [List.modify_eq_take_drop]
  simp [hs]

theorem matchChain_segment (ht : t = some (.resume a (.chainMatched requester frame socket j))) :
    Segment o i t w (matchChain o e w requester frame socket j) := by
  unfold matchChain
  simp only
  split
  · exact .refuse
  · exact .refuse
  split
  · exact .wait checkStage_wait
  have hq := quiet_pruneChains o w
  split
  · exact .wait (.after hq wait_refuse)
  have hlen : w.chainObjs.length = (pruneChains o w).1.chainObjs.length := rfl
  rw [hlen]
  generalize (pruneChains o w).1 = w₁ at hq hlen ⊢
  rcases dispatchChainStage_cases (o := o) (e := e)
    (w := enterChain w₁ requester frame socket e.now) (c := .chain requester frame socket)
    (j := 0) w₁.chainObjs.length (by simp [enterChain]) with
    ⟨status, now, w', hs, hq', h⟩ | h
  · rw [h]
    rw [closeChain_entered requester frame socket e.now now hs] at hq'
    exact .entered (c := { newChain requester frame socket e.now with
        status := .failed, completedAt := some now }) ht hq rfl rfl rfl rfl (fun _ => rfl)
      (fun _ => rfl) ((quiet_emit _ rfl).trans hq') (.inr ⟨by simp, rfl⟩)
  · rw [h]
    exact .entered (c := newChain requester frame socket e.now) ht hq rfl rfl rfl rfl
      (fun _ => rfl) (fun _ => rfl) (.refl _) (.inl ⟨rfl, by rw [hlen]⟩)

theorem matchChainStage_segment {chain : Ref}
    (ht : t = some (.resume a (.stageMatched c chain j))) :
    Segment o i t w (matchChainStage o e w c chain j) := by
  unfold matchChainStage
  split
  · exact .stay
  next ch hch =>
  split
  · exact .refuse
  · obtain ⟨w', hq, h⟩ := afterDispatch_eq (closeChain w chain 404 e.now) c
    rw [h]
    exact .closed ht hq
  next provider _ =>
  have hq := quiet_pruneRequests o w
  generalize pruneRequests o w = p at hq ⊢
  split
  · exact .wait (.after hq wait_refuse)
  split
  · exact .wait (.after hq wait_refuse)
  next hfree =>
  obtain ⟨w', hq', h⟩ := afterDispatch_eq (sendChainStage o e p.1 chain ch j provider) c
  rw [h]
  rcases queueFast_cases o e ((p.1.markMatchedRequest (stageRequest chain ch j provider
    e.now)).modifyChain chain (Chain.assign j provider)) provider (.CHAIN_STAGE chain j
      (compactStageRequestId ch.frame.i j) (ch.prior j)) false with ⟨-, hb, -⟩ | ⟨-, hsent⟩
  · cases hb
  · exact .stageSent ht hch hq (eq_false_of_ne_true hfree) (hsent.quiet.trans hq')

theorem storeStageResult_segment {chain : Ref}
    (ht : t = some (.resume a (.stageCompleted provider frame r chain))) :
    Segment o i t w (storeStageResult e w provider frame r chain) := by
  unfold storeStageResult
  simp only
  split
  · next s ch hs hch =>
    obtain ⟨q, hq, hstage⟩ := Option.bind_eq_some_iff.mp hs
    have hlen : chain < w.chainObjs.length := (List.getElem_of_getElem? hch).1
    have hclose : ∀ now, Quiet (closeChain ((w.modifyChain chain (Chain.store s.stageIndex
        ⟨frame, provider⟩)).emit (.stored chain s.stageIndex ⟨frame, provider⟩)) chain 200 now)
        ((closeChain ((w.modifyChain chain (Chain.store s.stageIndex
        ⟨frame, provider⟩)).emit (.stored chain s.stageIndex ⟨frame, provider⟩)) chain 200
          now).emit (.answered (.fastResult provider frame) (some r) 200 none)) :=
      fun now => quiet_emit _ rfl
    split
    · exact .stored hlen ht (view_of_get hq) hstage rfl (.inl ⟨200, e.now, hclose _, rfl⟩)
    split
    · rcases dispatchChainStage_cases (o := o) (e := e) (w := (w.modifyChain chain
        (Chain.store s.stageIndex ⟨frame, provider⟩)).emit (.stored chain s.stageIndex
          ⟨frame, provider⟩)) (c := .fastResult provider frame)
        (j := s.stageIndex + 1) chain (by simpa [World.modifyChain, World.emit] using hlen) with
        ⟨status, now, w', -, hq', h⟩ | h
      · exact h ▸ .stored hlen ht (view_of_get hq) hstage rfl (.inl ⟨status, now, hq', rfl⟩)
      · exact h ▸ .stored hlen ht (view_of_get hq) hstage rfl (.inr ⟨.refl _, rfl⟩)
    · exact .stored hlen ht (view_of_get hq) hstage rfl (.inl ⟨200, e.now, hclose _, rfl⟩)
  · exact .stay

/-! ### REVOKE -/

theorem revokeNeed_wait {r : Option Ref} (hr : ∀ r' ∈ r, ∃ q ∈ w.view r', q.needId = m.targetId) :
    Wait o w (revokeNeed e w m r) := by
  cases r with
  | none => exact wait_need trivial trivial rfl rfl rfl (by simp)
  | some r => exact expireFastRequest_wait (hr r rfl) rfl

theorem startRevoke_wait (hw : Wf w) : Wait o w (startRevoke e w m) := by
  have hr : ∀ r' ∈ w.request m.targetId, ∃ q ∈ w.view r', q.needId = m.targetId :=
    fun r' h => hw.request h
  unfold startRevoke
  split
  · exact wait_refuse
  split
  · exact revokeNeed_wait hr
  · split
    · exact wait_refuse
    · refine wait_turn ?_ trivial rfl (by simp [Cont.asks]) rfl
      cases hreq : w.request m.targetId with
      | none => trivial
      | some r => exact hr r hreq
  · exact wait_nil (.refl w)

theorem recoverRevoke_wait :
    Wait o w (recoverRevoke w m durable) := by
  unfold recoverRevoke
  split
  · exact wait_refuse
  split
  · exact wait_refuse
  · exact wait_call trivial (by simp [Asked, Cont.admits]) trivial rfl rfl

theorem deliverCancellation_eq (o : Options) (e : Env o) (w : World) (m : Envelope) (r : Ref)
    (q : Request) : ∃ w', Quiet w w' ∧ deliverCancellation o e w m r q = (w', []) := by
  have hq := quiet_queueCancellation o e w q m.targetId
  unfold deliverCancellation
  split <;> exact ⟨_, hq.trans (quiet_emit _ rfl), rfl⟩

theorem checkRevoke_wait (hw : Wf w) (hs : ∃ q ∈ w.view r, q.needId = m.targetId) :
    Wait o w (checkRevoke o e w m r) := by
  obtain ⟨q, hq, hid⟩ := hs
  unfold checkRevoke
  split
  · exact wait_refuse
  next q' hq' =>
  cases (view_of_get hq').symm.trans hq
  split
  · exact wait_answer rfl
  next hmode =>
  split
  · exact wait_answer rfl
  split
  · exact wait_answer rfl
  · exact wait_answer rfl
  · obtain ⟨w', hq', h⟩ := deliverCancellation_eq o e w m r q'
    exact h ▸ wait_nil hq'
  · have hstage : q'.core.stage = none := by simpa using (hw.stage r _ hq).not.mp hmode
    exact wait_call ⟨_, hq, hid, hstage⟩ ⟨_, hq, rfl⟩ trivial rfl rfl

theorem commitRevoke_segment (ht : t = some (.resume a (.revokeCommitted m r)))
    (ha : a.failed = false) :
    Segment o i t w (commitRevoke o e w m r) := by
  unfold commitRevoke
  split
  · exact .stay
  next q _ =>
  obtain ⟨w', hq, h⟩ := deliverCancellation_eq o e ((((w.markRequestStatus r .cancelled).modify r
    fun q => { q with cancelledAt := some e.now }).releaseFastTerminal r).finishResultWaiter
      m.targetId).1 m r q
  rw [h]
  refine .cancelled ht ha (Quiet.trans ?_ hq)
  refine (quiet_mark w r .cancelled).trans ((quiet_modify_self _ r ?_).trans
    ((quiet_release _ r).trans (quiet_finish _ _)))
  exact fun _ => rfl

/-! ### Request status -/

theorem startStatus_wait (hw : Wf w) :
    Wait o w (startStatus w requester requestId) := by
  unfold startStatus
  simp only
  split
  · split
    · exact wait_need ⟨_, _, rfl⟩ trivial rfl rfl rfl (by simp)
    · exact wait_refuse
  next r hr =>
  split
  · exact wait_refuse
  split
  · exact wait_answer rfl
  · refine wait_need (hw.request hr) trivial rfl rfl rfl ?_
    intro q i r h
    cases h
    rfl

/-- What the status poll does once it has taken over a terminal status. -/
theorem afterRead_wait :
    Wait o w (if (w.objs[r]?).any fun q => q.mode = .fast then
      expireFastRequest o w r e.now (.statusAnswer (.requestStatus requester requestId) (some r))
    else answer w (.requestStatus requester requestId) (some r) 409
      (some "request_status_requires_fast_need")) := by
  split
  · exact expireFastRequest_wait ⟨_, _, rfl⟩ rfl
  · exact wait_answer rfl

theorem readStatus_segment (ht : t = some (.resume a (.statusRead requester requestId r))) :
    Segment o i t w (readStatus e w requester requestId r a.need) := by
  unfold readStatus
  simp only
  split
  · next d hd =>
    have ha : a = .record (some d) := by
      cases a with
      | record r => exact congrArg Awaited.record hd
      | _ => cases hd
    subst ha
    split
    · next hs => exact .adopted ht hs (.after (quiet_mark w r d.status) afterRead_wait)
    · exact .wait afterRead_wait
  · exact .wait afterRead_wait

/-! ### PARTIAL -/

theorem startFastPartial_wait (hw : Wf w) :
    Wait o w (startFastPartial e w provider frame) := by
  unfold startFastPartial
  simp only
  split
  · exact wait_refuse
  split
  · exact wait_need trivial trivial rfl rfl rfl (by simp)
  next r hr =>
  split
  · exact wait_refuse
  next q hq =>
  split
  · exact wait_answer (by simp [Output.minor])
  · exact expireFastRequest_wait (hw.request hr) rfl

theorem recoverPartial_wait :
    Wait o w (recoverPartial o w provider frame durable) := by
  unfold recoverPartial
  simp only
  split
  · exact wait_refuse
  split
  · exact wait_refuse
  split
  · exact wait_refuse
  split
  · split
    · exact wait_call trivial (by simp [Asked, Cont.admits]) trivial rfl rfl
    · exact wait_refuse
  · exact wait_refuse

theorem terminalRequestError_ne {s : NeedStatus} {error : String}
    (h : terminalRequestError s = some error) : error ≠ sequenceMismatch := by
  cases s <;> simp only [terminalRequestError, Option.some.injEq, reduceCtorEq] at h <;> subst h <;>
    decide

theorem checkPartial_segment (ht : t = some (.resume a (.partialChecked provider frame r)))
    (hs : ∃ q ∈ w.view r, q.needId = frame.i) :
    Segment o i t w (checkPartial w provider frame r) := by
  obtain ⟨q, hq, hid⟩ := hs
  unfold checkPartial
  simp only
  split
  · exact .refuse
  next q' hq' =>
  cases (view_of_get hq').symm.trans hq
  split
  · next error he =>
    exact .wait (wait_answer (by simpa [Output.minor] using terminalRequestError_ne he))
  next hnone =>
  have hm : q'.core.status = .matched := terminalRequestError_none hnone
  split
  · exact .wait (wait_answer (by simp [Output.minor, sequenceMismatch]))
  next hmode =>
  split
  · exact .wait (wait_answer (by simp [Output.minor]))
  next hseq =>
  split
  · next hretry =>
    split
    · exact .wait (wait_call ⟨_, hq, hid⟩ rfl ⟨_, hq, hretry.1⟩ rfl rfl)
    · next hdigest =>
      refine .refused ht ⟨hq, hm⟩ (fun h => ?_) (fun _ => hdigest) (.refl _)
      have := hretry.1.symm.trans h
      simp only [Option.some.injEq] at this
      exact absurd this (by simp [Request.core])
  next hnot =>
  split
  · next hne =>
    exact .refused ht ⟨hq, hm⟩ hne (fun h => absurd h hnot) (.refl _)
  · next heq =>
    exact .wait (wait_call ⟨⟨_, hq, hid, not_not.mp hmode⟩, not_not.mp heq⟩ ⟨_, hq, rfl⟩
      ⟨_, hq, rfl⟩ rfl rfl)

theorem commitPartial_segment {n : ℕ}
    (ht : t = some (.resume a (.partialCommitted provider frame r n))) (ha : a.failed = false)
    (hne : a ≠ .answer (.accepted true)) :
    Segment o i t w (commitPartial o e w provider frame r n) := by
  unfold commitPartial deliverPartial
  simp only
  split
  · exact .stay
  next q hq =>
  have hdone : ∀ w₁ w₂ tr, Aside w₁ w₂ → Quiet ((w₁.modify r (Request.progress n frame)).emit
      (accepted provider frame r)) ((w₂.modify r fun q => q.advance n frame tr e.now).emit
        (accepted provider frame r)) := fun w₁ w₂ tr h => by
    refine Quiet.emit ((h.modify r _).quiet.trans (quiet_modify w₂ r ?_)) h.log _
    exact fun _ => rfl
  have hfinish : ∀ w₁, Aside w₁ (if q.partialCount = 0 then (w₁.finishResultWaiter frame.i).1 else
      w₁) := fun w₁ => by
    split
    · exact aside_finish w₁ frame.i
    · exact .refl w₁
  rcases queueFast_cases o e w q.requester (.PARTIAL r frame) true with ⟨hfull, -, hsame⟩ | ⟨hsent, h⟩
  · rw [hfull, hsame]
    cases w.ledger.isSome with
    | false => exact .wait (wait_answer (by simp [Output.minor]))
    | true => exact .spilled ht ha hne (hdone _ _ _ (hfinish w))
  · simp only [hsent, false_and, if_false]
    exact .streamed ht ha hne (hdone _ _ _ (h.trans (hfinish _)))

/-! ### Segments -/

theorem onFault_segment {f : Fault} (ht : t = some (.resume (.fault f) k)) (hs : Shape o w k) :
    Segment o i t w (onFault w f k) := by
  unfold onFault
  split
  · exact .wait (wait_check hs.2.1 hs.2.2)
  · exact .wait (.after (quiet_unreserve _ _) wait_refuse)
  split
  · next c r hc =>
    by_cases hm : ∃ p frame r', c = .fastPartial p frame ∧ r = some r' ∧ f = ⟨409, sequenceMismatch⟩
    · obtain ⟨p, frame, r', rfl, rfl, rfl⟩ := hm
      exact .refusedByLedger ht hc (.refl _)
    · refine .wait (wait_answer ?_)
      cases r with
      | none => exact minor_none _ _ _
      | some r' =>
        cases c with
        | fastPartial p frame =>
          simp only [Output.minor, reduceCtorEq, and_false, not_false_eq_true, true_and,
            Option.some.injEq, decide_eq_true_eq]
          rintro ⟨hstatus, hcode⟩
          refine hm ⟨p, frame, r', rfl, rfl, ?_⟩
          cases f
          simp only at hstatus hcode
          rw [hstatus, hcode]
        | _ => rfl
  · exact .stay

theorem proceed_segment (hw : Wf w) (ht : t = some (.resume a k)) (ha : a.failed = false)
    (hs : Shape o w k) (hx : k.expires → a ≠ .nothing) :
    Segment o i t w (proceed o e w a k) := by
  cases k with
  | fastNeedLooked q frame n =>
    simp only [proceed]
    split
    · exact .refuse
    split
    · exact .refuse
    · exact .wait (wait_turn trivial trivial rfl (by simp [Cont.asks]) rfl)
  | fastNeedMatched q frame n =>
    simp only [proceed]
    split
    · exact .refuse
    · exact .wait noOffer_wait
    · exact .wait (expireAbandoned_wait trivial rfl)
  | fastNeedSwept q frame n p => exact admitFastNeed_segment
  | fastNeedAdmitted q frame n p => exact dispatchFastNeed_segment ht ha
  | legacyNeedLooked m =>
    simp only [proceed]
    split
    · exact .refuse
    split
    · exact .refuse
    split
    · exact .refuse
    · exact .wait (wait_turn trivial trivial rfl (by simp [Cont.asks]) rfl)
  | legacyNeedMatched m =>
    simp only [proceed]
    split
    · exact .refuse
    · exact .wait noOffer_wait
    · exact admitLegacyNeed_segment
  | legacyNeedAdmitted m p => exact dispatchLegacyNeed_segment ht ha
  | expire r now k => exact .expired ht ha (quiet_failExpired w r now)
  | sweep now k => exact .wait (sweepNext_wait hs.1 hs.2)
  | done => exact .stay
  | resultLooked p frame => exact .wait recoverResult_wait
  | resultRecovered c => exact .refuse
  | resultChecked p frame r => exact checkResult_segment hs
  | resultCommitted p frame r => exact .completed ht ha rfl (quiet_complete w r p e.now)
  | resultCompleted p frame r => exact deliverFastResult_segment ht ha
  | legacyResultLooked m => exact .wait recoverResult_wait
  | legacyResultCommitted m r => exact .completed ht ha rfl (quiet_complete w r m.sender e.now)
  | legacyResultCompleted m r => exact deliverLegacyResult_segment ht ha
  | chainMatched q frame s j => exact matchChain_segment ht
  | stageMatched c chain j => exact matchChainStage_segment ht
  | stageCompleted p frame r chain => exact storeStageResult_segment ht
  | revokeLooked m r =>
    simp only [proceed]
    split
    · refine .wait (revokeNeed_wait fun r' hr => ?_)
      cases hr
      exact hs
    · exact .stay
  | revokeRecovered m => exact .wait recoverRevoke_wait
  | revokeTransitioned m => exact .refuse
  | revokeChecked m r => exact .wait (checkRevoke_wait hw hs)
  | revokeCommitted m r => exact commitRevoke_segment ht ha
  | statusRead q id r => exact readStatus_segment ht
  | statusAnswer c r =>
    obtain ⟨q, id, rfl⟩ := hs
    exact .wait (wait_answer rfl)
  | partialLooked p frame => exact .wait recoverPartial_wait
  | partialRecovered c => exact .refuse
  | partialChecked p frame r => exact checkPartial_segment ht hs
  | partialRetried p frame r => exact .repeated ht (.inl rfl) ha (.refl _)
  | partialCommitted p frame r n =>
    simp only [proceed]
    split
    · exact .repeated ht (.inr ⟨n, rfl, rfl⟩) ha (.refl _)
    · next hne => exact commitPartial_segment ht ha (by simpa using hne)

theorem resume_segment (hw : Wf w) (ht : t = some (.resume a k)) (hf : Fits o w (.resume a k)) :
    Segment o i t w (resume o e w a k) := by
  cases a with
  | fault f => exact onFault_segment ht hf.2
  | nothing => exact proceed_segment hw ht rfl hf.1 fun hx => by simp [hf.2.2] at hx
  | record r => exact proceed_segment hw ht rfl hf.2.1 fun _ => by simp
  | answer r => exact proceed_segment hw ht rfl hf.2 fun _ => by simp

theorem startCommand_segment (hw : Wf w) (c : Command) :
    Segment o i t w (startCommand o e w c) := by
  cases c with
  | fastNeed q frame n => exact .wait startFastNeed_wait
  | legacyNeed m => exact .wait startLegacyNeed_wait
  | fastResult p frame => exact .wait (startFastResult_wait hw)
  | legacyResult m => exact startLegacyResult_segment hw
  | fastPartial p frame => exact .wait (startFastPartial_wait hw)
  | revoke m => exact .wait (startRevoke_wait hw)
  | requestStatus q id => exact .wait (startStatus_wait hw)
  | chain q frame s => exact .wait startChain_wait
  | sweep force => exact .wait (expireAbandoned_wait trivial rfl)

/-- SEGMENT: what the machine does is of one of the kinds. -/
theorem segment_of_machine (hw : Wf w) (ht : ∀ x ∈ t, Fits o w x) {x : Input × Env o}
    {w' : World} {ts : List Task} (h : machine o w t x = some (w', ts)) :
    Segment o x.1 t w (w', ts) := by
  obtain ⟨x, e⟩ := x
  cases t with
  | none =>
    cases x with
    | start c => exact Option.some.inj h ▸ startCommand_segment hw c
    | peer c about =>
      cases h
      exact .peer rfl
    | chainTimeout chain =>
      cases h
      unfold chainTimeout
      split
      · exact .stay
      · next hrun => exact .timeout rfl rfl (eq_false_of_ne_true hrun)
    | resultWaitTimeout id =>
      cases h
      exact .wait (wait_nil (aside_set w).quiet)
    | setFastWaiter n b =>
      cases h
      exact .wait (wait_nil (aside_set w).quiet)
    | setLegacyWaiter n b =>
      cases h
      exact .wait (wait_nil (aside_set w).quiet)
    | takeEvents n l f s =>
      cases h
      exact .wait (wait_nil (aside_set w).quiet)
    | evict n =>
      cases h
      exact .wait (wait_nil (aside_set w).quiet)
    | _ => cases h
  | some y =>
    have hy := ht y rfl
    cases y with
    | call c k =>
      cases x with
      | exec =>
        cases h
        exact .executed rfl (.inl ⟨rfl, rfl⟩)
      | lose f =>
        obtain ⟨hf, h⟩ := Option.ite_none_right_eq_some.mp h
        cases h
        exact .executed rfl (.inr ⟨f, rfl, hf⟩)
      | giveUp f =>
        obtain ⟨hf, h⟩ := Option.ite_none_right_eq_some.mp h
        cases h
        exact .dropped rfl hf (.inr rfl)
      | fail f =>
        obtain ⟨hf, h⟩ := Option.ite_none_right_eq_some.mp h
        cases h
        exact .dropped rfl hf (.inl rfl)
      | _ => cases h
    | read id k =>
      cases x with
      | read age =>
        cases h
        exact .read rfl (.inl ⟨age, rfl⟩)
      | fail f =>
        obtain ⟨hf, h⟩ := Option.ite_none_right_eq_some.mp h
        cases h
        exact .read rfl (.inr ⟨f, rfl, hf⟩)
      | _ => cases h
    | resume a k =>
      cases x with
      | go => exact Option.some.inj h ▸ resume_segment hw rfl hy
      | _ => cases h

end Truyn.Relay
