import Truyn.Relay.State

/-! relay:handlers | the handlers of the relay, from one await to the next

    A handler is a chain of segments. `Cont` names the place where a handler continues after an
    await, with the variables it still needs; a task waits for the ledger (`call`, `read`) or for
    its turn (`resume`). Without a ledger `await lifecycleLedger?.x` still gives up the turn.

        fast NEED     looked ─▶ matched ─▶ swept ─▶ admitted
        RESULT        checked ─▶ committed ─▶ completed        (a chain stage: checked ─▶ stage)
        REVOKE        looked ─▶ checked ─▶ committed
        PARTIAL       checked ─▶ committed | retried
        CHAIN         matched (each stage) ─▶ dispatching ─▶ … stage ─▶ dispatching … -/

namespace Truyn.Relay
open Async Cas
open Ledger (Fault NeedStatus Time Record Answer Awaited Call Delivery sequenceMismatch)

/-- Where a handler continues. -/
inductive Cont
  | fastNeedLooked (requester : Id) (frame : Frame) (waitMs : ℕ)
  | fastNeedMatched (requester : Id) (frame : Frame) (waitMs : ℕ)
  | fastNeedSwept (requester : Id) (frame : Frame) (waitMs : ℕ) (provider : Id)
  | fastNeedAdmitted (requester : Id) (frame : Frame) (waitMs : ℕ) (provider : Id)
  | legacyNeedLooked (m : Envelope)
  | legacyNeedMatched (m : Envelope)
  | legacyNeedAdmitted (m : Envelope) (provider : Id)
  | expire (r : Ref) (now : Time) (k : Cont)
  | sweep (now : Time) (k : Cont)
  | done
  | resultLooked (provider : Id) (frame : Frame)
  | resultRecovered (c : Command)
  | resultChecked (provider : Id) (frame : Frame) (r : Ref)
  | resultCommitted (provider : Id) (frame : Frame) (r : Ref)
  | resultCompleted (provider : Id) (frame : Frame) (r : Ref)
  | legacyResultLooked (m : Envelope)
  | legacyResultCommitted (m : Envelope) (r : Ref)
  | legacyResultCompleted (m : Envelope) (r : Ref)
  | chainMatched (requester : Id) (frame : Frame) (socket : Bool) (stageIndex : ℕ)
  | stageMatched (c : Command) (chain : Ref) (stageIndex : ℕ)
  | stageCompleted (provider : Id) (frame : Frame) (r chain : Ref)
  | revokeLooked (m : Envelope) (r : Option Ref)
  | revokeRecovered (m : Envelope)
  | revokeTransitioned (m : Envelope)
  | revokeChecked (m : Envelope) (r : Ref)
  | revokeCommitted (m : Envelope) (r : Ref)
  | statusRead (requester requestId : Id) (r : Ref)
  | statusAnswer (c : Command) (r : Option Ref)
  | partialLooked (provider : Id) (frame : Frame)
  | partialRecovered (c : Command)
  | partialChecked (provider : Id) (frame : Frame) (r : Ref)
  | partialRetried (provider : Id) (frame : Frame) (r : Ref)
  | partialCommitted (provider : Id) (frame : Frame) (r : Ref) (expected : ℕ)

inductive Task
  | call (c : Call) (k : Cont)
  | read (id : Id) (k : Cont)
  | resume (a : Awaited) (k : Cont)

abbrev Step := World × List Task

/-- `await` of something that needs no ledger. -/
def turn (w : World) (k : Cont) : Step := (w, [.resume .nothing k])

/-- `await lifecycleLedger?.getNeed(id)`. -/
def awaitNeed (w : World) (id : Id) (k : Cont) : Step :=
  (w, [if w.ledger.isSome then .read id k else .resume .nothing k])

/-- `await lifecycleLedger?.<call>`. -/
def awaitCall (w : World) (c : Call) (k : Cont) : Step :=
  (w, [if w.ledger.isSome then .call c k else .resume .nothing k])

/-- Answer a command. -/
def answer (w : World) (c : Command) (r : Option Ref) (status : ℕ) (error : Option String) : Step :=
  (w.emit (.answered c r status error), [])

/-- Answer with the fault that a handler threw. -/
def throwFault (w : World) (c : Command) (r : Option Ref) (f : Fault) : Step :=
  answer w c r f.status (some f.code)

/-! ### Expiry -/

/-- The last sign of life of a fast request. -/
def Request.activityAt (q : Request) : Time := q.lastPartialAt.getD q.createdAt

/-- A matched fast request whose time is up. -/
def Request.expired (o : Options) (q : Request) (now : Time) : Bool :=
  q.mode = .fast ∧ q.status = .matched ∧ q.activityAt + o.requestTtlMs ≤ now

/-- The writes of `expireFastRequest` once the ledger has agreed. -/
def failExpired (w : World) (r : Ref) (now : Time) : World :=
  match w.objs[r]? with
  | none => w
  | some q =>
    ((((w.markRequestStatus r .failed).modify r fun q =>
      { q with failedAt := some now, failureReason := some "request_expired" }).releaseFastTerminal
        r).finishResultWaiter q.needId).1

/-- `await expireFastRequest(request)`, continuing at `k`. -/
def expireFastRequest (o : Options) (w : World) (r : Ref) (now : Time) (k : Cont) : Step :=
  match w.objs[r]? with
  | none => turn w k
  | some q =>
    if q.expired o now then
      if w.ledger.isSome then
        (w, [.call (.transitionNeed ⟨q.needId, none, some q.provider, .failed, none⟩)
          (.expire r now k)])
      else turn (failExpired w r now) k
    else turn w k

/-- The loop of `expireAbandonedFastRequests`: the entry visited next is still in the map. -/
def sweepNext (o : Options) (e : Env o) (w : World) (now : Time) (k : Cont) : Step :=
  match e.next with
  | none => turn w k
  | some r =>
    if r ∈ w.requests.map Prod.snd then expireFastRequest o w r now (.sweep now k) else turn w k

/-- `await expireAbandonedFastRequests(now, { force })`. -/
def expireAbandonedFastRequests (o : Options) (e : Env o) (w : World) (force : Bool) (k : Cont) :
    Step :=
  if !force ∧ e.now < w.lastExpirySweepAt + o.expirySweepIntervalMs then turn w k
  else sweepNext o e { w with lastExpirySweepAt := e.now } e.now k

/-! ### NEED -/

/-- A fresh request object. -/
def newRequest (needId requester provider capability : Id) (createdAt : Time) (mode : Mode)
    (stage : Option Stage) : Request :=
  { needId := needId, requester := requester, provider := provider, capability := capability
    createdAt := createdAt, status := .matched, mode := mode, nextPartialSequence := 0
    partialCount := 0, lastPartialSequence := none, lastPartialDigest := none
    lastPartialTransport := none, lastPartialAt := none, terminalReserved := mode = .fast
    completedAt := none, cancelledAt := none, failedAt := none, failureReason := none
    result := none, stage := stage }

def duplicateRequest : Fault := ⟨409, "duplicate_request"⟩

/-- The ledger call of `admitDirectNeedId`. -/
def reservation (id requester provider : Id) (fingerprint capability mode : JsString) : Call :=
  .reserveNeed ⟨id, requester, provider, fingerprint, capability, mode, requester, fingerprint,
    none, some ⟨provider, .NEED, some ⟨.NEED, none, none, fingerprint⟩⟩⟩

/-- `admitDirectNeedId`: refuse, reserve in the ledger, or remember the id. -/
def admitDirectNeedId (o : Options) (w : World) (id : Id) (window : Bool) (c : Call) (k : Cont) :
    Except Fault Step :=
  if w.hasRequest id ∨ (w.ledger.isNone ∧ id ∈ w.seenNeedIds) then .error duplicateRequest
  else if w.ledger.isNone ∧ o.maxSeenNeedIds ≤ w.seenNeedIds.length then
    .error ⟨503, "need_idempotency_capacity_reached"⟩
  else if !window then .error ⟨400, "need_outside_acceptance_window"⟩
  else if w.ledger.isSome then .ok (w, [.call c k])
  else .ok (turn { w with seenNeedIds := w.seenNeedIds ++ [id] } k)

/-- `pruneCompleted(requests, maxRequests)`. -/
def pruneRequests (o : Options) (w : World) : World × Bool :=
  ({ w with requests := (pruneCompleted w.requestTerminal o.maxRequests w.requests).1 },
    (pruneCompleted w.requestTerminal o.maxRequests w.requests).2)

def capacityReached : Fault := ⟨503, "relay_capacity_reached"⟩

/-- Session, dispatch right (where a command needs it) and signature of a fast command: the status
    and error to refuse it with. -/
def refuseFast {o : Options} (e : Env o) (nodeId : Id) (dispatch : Bool) (frame : Frame)
    (t : FrameType) : Option (ℕ × String) :=
  match e.key nodeId with
  | none => some (401, "unauthorized")
  | some key =>
    if dispatch ∧ !e.canDispatch nodeId then some (403, "provider_access_denied")
    else
      match verifyCompactFrame frame key t with
      | .error reason => some (400, reason)
      | .ok () => none

def startFastNeed {o : Options} (e : Env o) (w : World) (requester : Id) (frame : Frame)
    (waitMs : ℕ) : Step :=
  let c := .fastNeed requester frame waitMs
  match refuseFast e requester true frame .NEED with
  | some (status, error) => answer w c none status (some error)
  | none =>
    if w.hasRequest frame.i ∨ frame.i ∈ w.seenNeedIds then throwFault w c none duplicateRequest
    else awaitNeed w frame.i (.fastNeedLooked requester frame waitMs)

/-- No offer matches: paid relays deny, others do not find. -/
def noOffer (o : Options) (w : World) (c : Command) : Step :=
  if o.paidNeedEnforcement then answer w c none 403 (some "paid_need_denied")
  else answer w c none 404 (some "no_matching_provider")

/-- The admission of a fast NEED after its sweep; a refusal gives the reservation back. -/
def admitFastNeed (o : Options) (w : World) (requester : Id) (frame : Frame) (waitMs : ℕ)
    (provider : Id) : Step :=
  let c := .fastNeed requester frame waitMs
  match w.reserveFastTerminal o requester with
  | none => answer w c none 429 (some "terminal_backpressure")
  | some w =>
    if (pruneRequests o w).2 then
      match admitDirectNeedId o (pruneRequests o w).1 frame.i true
        (reservation frame.i requester provider frame.digest (frame.capability.getD []) (js "fast"))
        (.fastNeedAdmitted requester frame waitMs provider) with
      | .ok step => step
      | .error f => throwFault ((pruneRequests o w).1.unreserveFastTerminal requester) c none f
    else throwFault ((pruneRequests o w).1.unreserveFastTerminal requester) c none capacityReached

/-- The dispatch of an admitted fast NEED. -/
def dispatchFastNeed (o : Options) (e : Env o) (w : World) (requester : Id) (frame : Frame)
    (waitMs : ℕ) (provider : Id) : Step :=
  let c := .fastNeed requester frame waitMs
  if w.hasRequest frame.i then throwFault w c none duplicateRequest
  else
    let r := w.objs.length
    let w := w.markMatchedRequest (newRequest frame.i requester provider (frame.capability.getD [])
      e.now .fast none)
    let w := if 0 < waitMs then w.setResultWaiter frame.i true else w
    let w := (w.queueFast o e provider (.NEED frame.i requester) false).1
    if waitMs = 0 then answer w c (some r) 200 none else (w, [])

def startLegacyNeed {o : Options} (e : Env o) (w : World) (m : Envelope) : Step :=
  match e.auth with
  | some (status, error) => answer w (.legacyNeed m) none status (some error)
  | none =>
    if !e.canDispatch m.sender then answer w (.legacyNeed m) none 403 (some "provider_access_denied")
    else if w.hasRequest m.id ∨ m.id ∈ w.seenNeedIds then
      throwFault w (.legacyNeed m) none duplicateRequest
    else awaitNeed w m.id (.legacyNeedLooked m)

def admitLegacyNeed (o : Options) (e : Env o) (w : World) (m : Envelope) (provider : Id) : Step :=
  if (pruneRequests o w).2 then
    match admitDirectNeedId o (pruneRequests o w).1 m.id (insideAdmissionWindow m.createdAt e.now)
      (reservation m.id m.sender provider m.id (m.capability.getD []) (js "legacy"))
      (.legacyNeedAdmitted m provider) with
    | .ok step => step
    | .error f => throwFault (pruneRequests o w).1 (.legacyNeed m) none f
  else throwFault (pruneRequests o w).1 (.legacyNeed m) none capacityReached

def dispatchLegacyNeed (o : Options) (e : Env o) (w : World) (m : Envelope) (provider : Id) :
    Step :=
  if w.hasRequest m.id then throwFault w (.legacyNeed m) none duplicateRequest
  else
    let r := w.objs.length
    let w := w.markMatchedRequest (newRequest m.id m.sender provider (m.capability.getD [])
      e.now .legacy none)
    answer (w.queue o e provider (.NEED m.id m.sender)) (.legacyNeed m) (some r) 200 none

/-! ### RESULT -/

/-- The RESULT of a NEED this relay does not know, checked against the shared ledger. -/
def recoverResult (o : Options) (w : World) (c : Command) (id provider : Id) (mode json : JsString)
    (durable : Option Record) : Step :=
  match durable with
  | none => answer w c none 404 (some "request_not_found")
  | some d =>
    if d.provider ≠ provider then answer w c none 403 (some "provider_mismatch")
    else
      match terminalRequestError d.status with
      | some error => answer w c none 409 (some error)
      | none =>
        if d.mode = mode ∧ o.cosmos then
          awaitCall w (.transitionNeed ⟨id, none, some provider, .completed,
            some ⟨d.requester, .RESULT, some ⟨.RESULT, none, none, json⟩⟩⟩) (.resultRecovered c)
        else answer w c none 503 (some "request_recovery_required")

/-- The ledger call of `completeRequest`. -/
def completion (q : Request) (provider : Id) (json : JsString) : Call :=
  .transitionNeed ⟨q.needId, none, some provider, .completed,
    some ⟨q.requester, .RESULT, some ⟨.RESULT, none, none, json⟩⟩⟩

/-- The writes of `completeRequest`: status, time, and the provider's success count. -/
def completeRequest (w : World) (r : Ref) (provider : Id) (now : Time) : World :=
  (({ w.markRequestStatus r .completed with
      successfulTasks := Function.update w.successfulTasks provider
        (w.successfulTasks provider + 1) }).modify r fun q =>
    { q with completedAt := some now }).emit (.succeeded provider r)

def startFastResult {o : Options} (e : Env o) (w : World) (provider : Id) (frame : Frame) : Step :=
  let c := .fastResult provider frame
  match refuseFast e provider false frame .RESULT with
  | some (status, error) => answer w c none status (some error)
  | none =>
    match w.request frame.i with
    | none => awaitNeed w frame.i (.resultLooked provider frame)
    | some r =>
      match w.objs[r]? with
      | none => answer w c none 404 (some "request_not_found")
      | some q =>
        if q.provider ≠ provider then answer w c (some r) 403 (some "provider_mismatch")
        else expireFastRequest o w r e.now (.resultChecked provider frame r)

/-- `processFastResult` after the expiry check: a chain stage is completed at once, a direct NEED
    first in the ledger. -/
def checkResult (w : World) (now : Time) (provider : Id) (frame : Frame) (r : Ref) : Step :=
  let c := .fastResult provider frame
  match w.objs[r]? with
  | none => answer w c none 404 (some "request_not_found")
  | some q =>
    match terminalRequestError q.status with
    | some error => answer w c (some r) 409 (some error)
    | none =>
      match q.stage with
      | some s =>
        match lookup w.chains s.chainId with
        | none => answer w c (some r) 409 (some "chain_not_running")
        | some chain =>
          if w.chainTerminal chain then answer w c (some r) 409 (some "chain_not_running")
          else turn (completeRequest w r provider now) (.stageCompleted provider frame r chain)
      | none => awaitCall w (completion q provider frame.digest) (.resultCommitted provider frame r)

/-- The delivery of a fast RESULT: to the waiting NEED, or to the requester's terminal events. -/
def deliverFastResult (o : Options) (e : Env o) (w : World) (provider : Id) (frame : Frame)
    (r : Ref) : Step :=
  let c := .fastResult provider frame
  let event := .RESULT r (.frame frame)
  match w.objs[r]? with
  | none => (w, [])
  | some q =>
    let w := w.releaseFastTerminal r
    if q.partialCount = 0 ∧ (w.finishResultWaiter q.needId).2 then
      answer ((w.finishResultWaiter q.needId).1.emit (.sent q.requester event .longPoll))
        c (some r) 200 none
    else if (w.queueFastTerminal o e q.requester event).2 = .full then
      answer (w.queueFastTerminal o e q.requester event).1 c (some r) 503
        (some "terminal_capacity_invariant")
    else answer (w.queueFastTerminal o e q.requester event).1 c (some r) 200 none

def startLegacyResult {o : Options} (e : Env o) (w : World) (m : Envelope) : Step :=
  let c := .legacyResult m
  match e.auth with
  | some (status, error) => answer w c none status (some error)
  | none =>
    match w.request m.requestId with
    | none => awaitNeed w m.requestId (.legacyResultLooked m)
    | some r =>
      match w.objs[r]? with
      | none => answer w c none 404 (some "request_not_found")
      | some q =>
        if q.provider ≠ m.sender then answer w c (some r) 403 (some "provider_mismatch")
        else
          match terminalRequestError q.status with
          | some error => answer w c (some r) 409 (some error)
          | none =>
            if q.mode = .chainStage then
              turn (completeRequest w r m.sender e.now) (.legacyResultCompleted m r)
            else awaitCall w (completion q m.sender m.id) (.legacyResultCommitted m r)

/-- The delivery of a legacy RESULT. -/
def deliverLegacyResult (o : Options) (e : Env o) (w : World) (m : Envelope) (r : Ref) : Step :=
  match w.objs[r]? with
  | none => (w, [])
  | some q =>
    let w := w.modify r fun q => { q with result := some m }
    answer (w.queue o e q.requester (.RESULT r (.envelope m))) (.legacyResult m) (some r) 200 none

/-! ### Chains -/

/-- `closeChain`: the request found under the current stage's id is failed with it. -/
def closeChain (w : World) (chain : Ref) (status : ℕ) (now : Time) : World :=
  match w.chainObjs[chain]? with
  | none => w
  | some c =>
    let w := w.modifyChain chain fun c => { c with
      status := if status = 200 then .completed else .failed, completedAt := some now }
    let w :=
      match c.currentStage.bind fun i => w.request (compactStageRequestId c.chainId i) with
      | none => w
      | some r => if w.requestTerminal r then w else w.markRequestStatus r .failed
    w.emit (.chainResult chain status)

/-- What is left of a command when the dispatch it awaited is over: a stage RESULT is answered. -/
def afterDispatch (w : World) (c : Command) : Step :=
  match c with
  | .fastResult _ _ => answer w c none 200 none
  | _ => (w, [])

/-- `dispatchChainStage` up to its matching. -/
def dispatchChainStage {o : Options} (e : Env o) (w : World) (c : Command) (chain : Ref)
    (stageIndex : ℕ) : Step :=
  match w.chainObjs[chain]? with
  | none => (w, [])
  | some ch =>
    if !e.canDispatch ch.requester then afterDispatch (closeChain w chain 403 e.now) c
    else
      match (ch.frame.stages[stageIndex]?).join with
      | none => afterDispatch (closeChain w chain 400 e.now) c
      | some _ => turn w (.stageMatched c chain stageIndex)

/-- The request of a stage, recorded in its chain and sent to the provider. -/
def sendChainStage (o : Options) (e : Env o) (w : World) (chain : Ref) (ch : Chain)
    (stageIndex : ℕ) (provider : Id) : World :=
  let requestId := compactStageRequestId ch.frame.i stageIndex
  let q := newRequest requestId ch.requester provider ((ch.frame.stages[stageIndex]?).join.getD [])
    e.now .chainStage (some ⟨chain, ch.frame.i, stageIndex⟩)
  let w := (w.markMatchedRequest q).modifyChain chain fun c => { c with
    providers := Function.update c.providers stageIndex (some provider)
    currentStage := some stageIndex }
  let prior := if 0 < stageIndex then ch.results (stageIndex - 1) else none
  (w.queueFast o e provider (.CHAIN_STAGE chain stageIndex requestId prior) false).1

/-- `dispatchChainStage` after its matching. -/
def matchChainStage (o : Options) (e : Env o) (w : World) (c : Command) (chain : Ref)
    (stageIndex : ℕ) : Step :=
  match w.chainObjs[chain]? with
  | none => (w, [])
  | some ch =>
    match e.offer with
    | .error f => throwFault w c none f
    | .ok none => afterDispatch (closeChain w chain 404 e.now) c
    | .ok (some provider) =>
      if !(pruneRequests o w).2 then throwFault (pruneRequests o w).1 c none capacityReached
      else if (pruneRequests o w).1.hasRequest (compactStageRequestId ch.frame.i stageIndex) then
        throwFault (pruneRequests o w).1 c none duplicateRequest
      else afterDispatch (sendChainStage o e (pruneRequests o w).1 chain ch stageIndex provider) c

/-- The RESULT of a stage, stored in its chain; then the next stage, or the end. -/
def storeStageResult {o : Options} (e : Env o) (w : World) (provider : Id) (frame : Frame)
    (r chain : Ref) : Step :=
  let c := .fastResult provider frame
  match (w.objs[r]?).bind Request.stage, w.chainObjs[chain]? with
  | some s, some ch =>
    let result : StageResult := ⟨frame, provider⟩
    let w := (w.modifyChain chain fun c => { c with
      results := Function.update c.results s.stageIndex (some result) }).emit
        (.stored chain s.stageIndex result)
    if frame.failed then answer (closeChain w chain 200 e.now) c (some r) 200 none
    else if s.stageIndex + 1 < ch.frame.stages.length then
      dispatchChainStage e w c chain (s.stageIndex + 1)
    else answer (closeChain w chain 200 e.now) c (some r) 200 none
  | _, _ => (w, [])

/-- The chain entry of `startChain`, before its first dispatch. -/
def enterChain (w : World) (requester : Id) (frame : Frame) (socket : Bool) (now : Time) : World :=
  { w with
    chains := insert w.chains frame.i w.chainObjs.length
    chainObjs := w.chainObjs ++ [{
      chainId := frame.i, requester := requester, frame := frame, socket := socket
      createdAt := now, status := .running, currentStage := none, providers := fun _ => none
      results := fun _ => none, completedAt := none }] }

/-- `pruneCompleted(chains, maxChains)`. -/
def pruneChains (o : Options) (w : World) : World × Bool :=
  ({ w with chains := (pruneCompleted w.chainTerminal o.maxChains w.chains).1 },
    (pruneCompleted w.chainTerminal o.maxChains w.chains).2)

/-- The loop of `startChain` over its stages: each must have a provider. -/
def checkStage (w : World) (requester : Id) (frame : Frame) (socket : Bool) (stageIndex : ℕ) :
    Step :=
  match (frame.stages[stageIndex]?).join with
  | none => answer w (.chain requester frame socket) none 400 (some "invalid_chain_capability")
  | some _ => turn w (.chainMatched requester frame socket stageIndex)

def startChain {o : Options} (e : Env o) (w : World) (requester : Id) (frame : Frame)
    (socket : Bool) : Step :=
  let c := .chain requester frame socket
  match refuseFast e requester true frame .CHAIN with
  | some (status, error) => answer w c none status (some error)
  | none =>
    if o.paidNeedEnforcement then answer w c none 403 (some "paid_chain_durable_admission_required")
    else if (lookup w.chains frame.i).isSome then answer w c none 409 (some "duplicate_chain")
    else if frame.stages.length < 2 ∨ 8 < frame.stages.length then
      answer w c none 400 (some "invalid_chain_stages")
    else checkStage w requester frame socket 0

/-- `startChain` after a matching: the next stage, or the entry into the map. -/
def matchChain (o : Options) (e : Env o) (w : World) (requester : Id) (frame : Frame)
    (socket : Bool) (stageIndex : ℕ) : Step :=
  let c := .chain requester frame socket
  match e.offer with
  | .error f => throwFault w c none f
  | .ok none => answer w c none 404 (some "no_matching_provider")
  | .ok (some _) =>
    if stageIndex + 1 < frame.stages.length then checkStage w requester frame socket (stageIndex + 1)
    else if !(pruneChains o w).2 then throwFault (pruneChains o w).1 c none capacityReached
    else dispatchChainStage e (enterChain (pruneChains o w).1 requester frame socket e.now) c
      w.chainObjs.length 0

/-! ### REVOKE -/

/-- The ledger call of a cancellation. -/
def cancellation (m : Envelope) (provider : Id) : Call :=
  .transitionNeed ⟨m.targetId, some m.sender, none, .cancelled,
    some ⟨provider, .REVOKE, some ⟨.REVOKE, none, none, m.id⟩⟩⟩

/-- The NEED branch of `/v1/revoke`. -/
def revokeNeed {o : Options} (e : Env o) (w : World) (m : Envelope) (r : Option Ref) : Step :=
  match r with
  | none => awaitNeed w m.targetId (.revokeRecovered m)
  | some r => expireFastRequest o w r e.now (.revokeChecked m r)

/-- `/v1/revoke`; offers are not part of this memory. -/
def startRevoke {o : Options} (e : Env o) (w : World) (m : Envelope) : Step :=
  match e.auth with
  | some (status, error) => answer w (.revoke m) none status (some error)
  | none =>
    match m.targetKind with
    | .need => revokeNeed e w m (w.request m.targetId)
    | .auto =>
      if o.cosmos then answer w (.revoke m) none 409 (some "explicit_revoke_target_kind_required")
      else turn w (.revokeLooked m (w.request m.targetId))
    | .offer => (w, [])

/-- A NEED this relay does not know is cancelled in the ledger. -/
def recoverRevoke (w : World) (m : Envelope) (durable : Option Record) : Step :=
  match durable with
  | none => answer w (.revoke m) none 404 (some "target_not_found")
  | some d =>
    if d.requester ≠ m.sender then answer w (.revoke m) none 403 (some "not_request_owner")
    else awaitCall w (cancellation m d.provider) (.revokeTransitioned m)

/-- Hand the cancellation to the provider, and answer. -/
def deliverCancellation (o : Options) (e : Env o) (w : World) (m : Envelope) (r : Ref)
    (q : Request) : Step :=
  if (w.queueCancellation o e q (.REVOKE m.targetId)).2 then
    answer (w.queueCancellation o e q (.REVOKE m.targetId)).1 (.revoke m) (some r) 200 none
  else answer (w.queueCancellation o e q (.REVOKE m.targetId)).1 (.revoke m) (some r) 429
    (some "cancellation_backpressure")

/-- `/v1/revoke` after the expiry check. -/
def checkRevoke (o : Options) (e : Env o) (w : World) (m : Envelope) (r : Ref) : Step :=
  match w.objs[r]? with
  | none => answer w (.revoke m) none 404 (some "target_not_found")
  | some q =>
    if q.mode = .chainStage then
      answer w (.revoke m) (some r) 409 (some "chain_stage_cancellation_not_supported")
    else if q.requester ≠ m.sender then answer w (.revoke m) (some r) 403 (some "not_request_owner")
    else
      match q.status with
      | .completed => answer w (.revoke m) (some r) 409 (some "request_already_completed")
      | .failed => answer w (.revoke m) (some r) 409 (some "request_failed")
      | .cancelled => deliverCancellation o e w m r q
      | .matched => awaitCall w (cancellation m q.provider) (.revokeCommitted m r)

/-- `/v1/revoke` once the ledger has agreed. -/
def commitRevoke (o : Options) (e : Env o) (w : World) (m : Envelope) (r : Ref) : Step :=
  match w.objs[r]? with
  | none => (w, [])
  | some q =>
    deliverCancellation o e ((((w.markRequestStatus r .cancelled).modify r fun q =>
      { q with cancelledAt := some e.now }).releaseFastTerminal r).finishResultWaiter
        m.targetId).1 m r q

/-! ### Request status -/

def startStatus (w : World) (requester requestId : Id) : Step :=
  let c := .requestStatus requester requestId
  match w.request requestId with
  | none =>
    if w.ledger.isSome then awaitNeed w requestId (.statusAnswer c none)
    else answer w c none 404 (some "request_not_found")
  | some r =>
    match w.objs[r]? with
    | none => answer w c none 404 (some "request_not_found")
    | some q =>
      if q.requester ≠ requester then answer w c (some r) 403 (some "not_request_owner")
      else awaitNeed w requestId (.statusRead requester requestId r)

/-- The status poll takes over a terminal status from the ledger, then checks the expiry. -/
def readStatus {o : Options} (e : Env o) (w : World) (requester requestId : Id) (r : Ref)
    (durable : Option Record) : Step :=
  let c := .requestStatus requester requestId
  let w :=
    match durable with
    | some d => if d.status ≠ .matched then w.markRequestStatus r d.status else w
    | none => w
  if (w.objs[r]?).any fun q => q.mode = .fast then
    expireFastRequest o w r e.now (.statusAnswer c (some r))
  else answer w c (some r) 409 (some "request_status_requires_fast_need")

/-! ### PARTIAL -/

/-- The ledger call of a frame; a retry of an accepted frame carries no delivery. -/
def partialCall (frame : Frame) (provider : Id) (recipient : Option Id) : Call :=
  .acceptPartial ⟨frame.i, provider, frame.sequence.getD (-1), some frame.digest,
    recipient.map fun to' =>
      ⟨to', .PARTIAL, some ⟨.PARTIAL, frame.sequence, some frame.i, frame.digest⟩⟩⟩

def startFastPartial {o : Options} (e : Env o) (w : World) (provider : Id) (frame : Frame) : Step :=
  let c := .fastPartial provider frame
  match refuseFast e provider false frame .PARTIAL with
  | some (status, error) => answer w c none status (some error)
  | none =>
    match w.request frame.i with
    | none => awaitNeed w frame.i (.partialLooked provider frame)
    | some r =>
      match w.objs[r]? with
      | none => answer w c none 404 (some "request_not_found")
      | some q =>
        if q.provider ≠ provider then answer w c (some r) 403 (some "provider_mismatch")
        else expireFastRequest o w r e.now (.partialChecked provider frame r)

/-- The frame of a NEED this relay does not know goes to the shared ledger only. -/
def recoverPartial (o : Options) (w : World) (provider : Id) (frame : Frame)
    (durable : Option Record) : Step :=
  let c := .fastPartial provider frame
  match durable with
  | none => answer w c none 404 (some "request_not_found")
  | some d =>
    if d.provider ≠ provider then answer w c none 403 (some "provider_mismatch")
    else
      match terminalRequestError d.status with
      | some error => answer w c none 409 (some error)
      | none =>
        if d.mode = js "fast" ∧ o.cosmos then
          if frame.sequence.any (0 ≤ ·) then
            awaitCall w (partialCall frame provider (some d.requester)) (.partialRecovered c)
          else answer w c none 400 (some "invalid_partial_sequence")
        else answer w c none 503 (some "request_recovery_required")

/-- `processFastPartial` after the expiry check. -/
def checkPartial (w : World) (provider : Id) (frame : Frame) (r : Ref) : Step :=
  let c := .fastPartial provider frame
  match w.objs[r]? with
  | none => answer w c none 404 (some "request_not_found")
  | some q =>
    match terminalRequestError q.status with
    | some error => answer w c (some r) 409 (some error)
    | none =>
      if q.mode ≠ .fast then answer w c (some r) 409 (some "partial_requires_fast_need")
      else if !frame.sequence.any (0 ≤ ·) then
        answer w c (some r) 400 (some "invalid_partial_sequence")
      else if frame.sequence = some ((q.nextPartialSequence : ℤ) - 1) ∧
          q.lastPartialSequence = frame.sequence then
        if q.lastPartialDigest = some frame.digest then
          awaitCall w (partialCall frame provider none) (.partialRetried provider frame r)
        else answer w c (some r) 409 (some sequenceMismatch)
      else if frame.sequence ≠ some (q.nextPartialSequence : ℤ) then
        answer w c (some r) 409 (some sequenceMismatch)
      else awaitCall w (partialCall frame provider (some q.requester))
        (.partialCommitted provider frame r q.nextPartialSequence)

/-- The progress a delivered frame leaves in its request. -/
def Request.advance (q : Request) (expected : ℕ) (frame : Frame) (transport : Transport)
    (now : Time) : Request :=
  { q with
    nextPartialSequence := expected + 1, partialCount := expected + 1
    lastPartialSequence := frame.sequence, lastPartialDigest := some frame.digest
    lastPartialTransport := some transport, lastPartialAt := some now }

/-- The live delivery of a frame: what `queueFast` did, or the outbox of a ledger. -/
def deliverPartial (o : Options) (e : Env o) (w : World) (q : Request) (r : Ref) (frame : Frame) :
    World × Transport :=
  let sent := w.queueFast o e q.requester (.PARTIAL r frame) true
  (sent.1, if sent.2 = .full ∧ w.ledger.isSome then .durableOutbox else sent.2)

/-- `processFastPartial` once the ledger has accepted the frame. -/
def commitPartial (o : Options) (e : Env o) (w : World) (provider : Id) (frame : Frame) (r : Ref)
    (expected : ℕ) : Step :=
  let c := .fastPartial provider frame
  match w.objs[r]? with
  | none => (w, [])
  | some q =>
    let sent := deliverPartial o e w q r frame
    if sent.2 = .full then answer sent.1 c (some r) 429 (some "partial_backpressure")
    else
      let w := if q.partialCount = 0 then (sent.1.finishResultWaiter frame.i).1 else sent.1
      answer (w.modify r fun q => q.advance expected frame sent.2 e.now) c (some r) 200 none

end Truyn.Relay
