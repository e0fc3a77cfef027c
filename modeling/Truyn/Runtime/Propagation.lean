import Truyn.Js.Sets
import Truyn.Schemes.Along
import Truyn.Schemes.Tables

/-! runtime:propagation | how a node places its own peer record, from one await to the next

    The record has to reach the peers closest to the node. Who acknowledged it is remembered for the
    record, not for the targets. A publish announces it to the targets that are pending, and a timer
    retries those that failed. A report of a discovery change queues a microtask that publishes, or
    leaves that to a publish under way or to the timer. -/

namespace Truyn.Propagation

abbrev NodeId := JsString

/-- A signed peer record of this node. -/
structure Record where
  recordId : JsString
  sequence : ℕ
  deriving DecidableEq

/-- `peerRecordLifecycle.propagation`. -/
structure Placement where
  recordId : Option JsString
  sequence : Option ℕ
  targetNodeIds : List NodeId
  acknowledgedNodeIds : List NodeId
  pendingNodeIds : List NodeId
  ready : Bool

/-- Who runs `#publishCurrentPeerRecord`: a call of `start`, a renewal, `#runPeerRecordPublish`. -/
inductive Publisher
  | start (call : ℕ)
  | renewal
  | worker

/-- What is done with the result of an announcement. -/
inductive Owner
  | publish (publisher : Publisher) (peers : List NodeId)
  | retry (recoveryPeers : List NodeId) (attempt : ℕ)
  | other

inductive Status
  | inFlight
  | returned (failedNodeIds : List NodeId)
  | threw
  | concluded

structure Announcement where
  record : Record
  candidates : List NodeId
  replacePropagationTargets : Bool
  trackPropagation : Bool
  owner : Owner
  status : Status

/-- `peerRecordRecoveryRetryTimer`, with what its callback closes over. -/
structure Retry where
  record : Record
  peers : List NodeId
  recoveryPeers : List NodeId
  attempt : ℕ
  trackPropagation : Bool

inductive WorkStage
  | publishing
  | returned
  /-- The loop was left, `finally` has not run. -/
  | left
  deriving DecidableEq

/-- `peerRecordPublishInFlight`. -/
structure Work where
  recordId : JsString
  stage : WorkStage

inductive Stage
  | persisting
  | publishing
  | ended
  deriving DecidableEq

structure Renewal where
  record : Record
  announce : Bool
  stage : Stage

/-- `closest` is what `#peerRecordPropagationPeers` gives now, and `reported` that every change of it
    was reported. `microtasks` are queued with the record and whether the targets had changed. `acks`
    logs which node acknowledged which record. -/
structure Node where
  started : Bool
  closing : Bool
  sequence : ℕ
  localPeerRecord : Option Record
  closest : List NodeId
  reported : Bool
  acked : Option JsString × List NodeId
  propagation : Placement
  publishInFlight : Option Work
  publishDirty : Bool
  propagationQueued : Bool
  microtasks : List (Record × Bool)
  retryTimer : Option Retry
  announcements : List Announcement
  renewalInFlight : Option Renewal
  starts : List Stage
  acks : List (JsString × NodeId)

inductive Event
  /-- The record of `start` is made; `start` goes on after the state was saved. -/
  | start (recordId : JsString)
  | startPersisted (call : ℕ) (ok valid : Bool)
  | renew (recordId : JsString) (announce : Bool)
  | renewPersisted (ok valid : Bool)
  | renewed
  | refresh (recordId : JsString)
  | discover (closest : List NodeId)
  | report
  | microtask (valid : Bool)
  /-- A call of `announcePeerRecord` from outside, or in the background. -/
  | announce (record : Record) (peers : List NodeId) (replaceTargets track : Bool)
  | announced (call : ℕ) (results : List Bool)
  | conclude (call : ℕ)
  | loop (valid : Bool)
  | workOver
  | timer (valid : Bool)
  | close
  | closed

/-- The peers that acknowledged, and those that failed. -/
def outcome : List NodeId → List Bool → List NodeId × List NodeId
  | [], _ => ([], [])
  | peers, [] => ([], peers)
  | peer :: peers, result :: results =>
    let (fulfilled, failed) := outcome peers results
    if result then (peer :: fulfilled, failed) else (fulfilled, peer :: failed)

namespace Node

def new : Node :=
  ⟨false, false, 0, none, [], true, (none, []), ⟨none, none, [], [], [], true⟩, none, false, false,
    [], none, [], none, [], []⟩

variable (s : Node)

/-- `this.localPeerRecord?.recordId === recordId`. -/
def isLocal (recordId : JsString) : Bool :=
  s.localPeerRecord.any fun record => decide (record.recordId = recordId)

def live : Bool := s.started && !s.closing

def peerRecordPropagationReady : Bool :=
  s.started && s.localPeerRecord.any fun record =>
    decide (s.propagation.recordId = some record.recordId) && s.propagation.ready

/-! ### Targets and acknowledgements -/

/-- Who acknowledged the record, as long as no other record was asked for. -/
def ackedNodeIdsFor (record : Record) : List NodeId :=
  if s.acked.1 = some record.recordId then s.acked.2 else []

def placed (record : Record) (targets acked : List NodeId) : Node :=
  let targetNodeIds := sortStrings (setOf targets)
  let pendingNodeIds := targetNodeIds.filter (· ∉ acked)
  { s with
    acked := (some record.recordId, acked)
    propagation :=
      { recordId := some record.recordId
        sequence := some record.sequence
        targetNodeIds := targetNodeIds
        acknowledgedNodeIds := targetNodeIds.filter (· ∈ acked)
        pendingNodeIds := pendingNodeIds
        ready := decide (pendingNodeIds.length = 0) } }

def resetPeerRecordPropagation (record : Record) (peers : List NodeId) : Node :=
  s.placed record peers (s.ackedNodeIdsFor record)

def recordPeerRecordPropagation (record : Record) (candidates fulfilled : List NodeId)
    (replaceTargets : Bool) : Node :=
  if !s.isLocal record.recordId then s
  else
    s.placed record
      (if replaceTargets then candidates
        else if s.propagation.recordId = some record.recordId then s.propagation.targetNodeIds
        else candidates)
      (s.ackedNodeIdsFor record ++ fulfilled)

/-- The targets are those of the placement already. -/
def unchangedTargets (record : Record) : Bool :=
  decide (sortStrings s.closest =
    if s.propagation.recordId = some record.recordId then sortStrings s.propagation.targetNodeIds
    else [])

/-- Whether the targets had changed. -/
def stagePeerRecordPropagation (record : Record) : Node × Bool :=
  if !s.live || !s.isLocal record.recordId then (s, false)
  else if s.propagation.recordId = some record.recordId ∧ s.unchangedTargets record then (s, false)
  else (s.resetPeerRecordPropagation record s.closest, true)

/-! ### Publishing and retrying -/

def clearPeerRecordRecoveryRetryTimer : Node := { s with retryTimer := none }

/-- `this.peerRecordRecoveryRetryDelaysMs.length`. -/
def retryDelays : ℕ := 5

def isPending (record : Record) (peer : NodeId) : Bool :=
  decide (s.propagation.recordId = some record.recordId ∧ peer ∈ s.propagation.pendingNodeIds)

/-- What is retried next; after the last delay, what is still pending, with that delay. -/
def nextRetry (record : Record) (recoveryPeers failedNodeIds : List NodeId) (attempt : ℕ)
    (trackPropagation : Bool) : Option Retry :=
  let late := decide (retryDelays ≤ attempt)
  let failed := if late then failedNodeIds.filter (s.isPending record) else failedNodeIds
  let peers := recoveryPeers.filter (· ∈ failed)
  if !s.live || !s.isLocal record.recordId || late && !trackPropagation || peers.isEmpty then none
  else some ⟨record, peers, recoveryPeers, if late then retryDelays - 1 else attempt, trackPropagation⟩

def schedulePeerRecordRecoveryRetries (record : Record) (recoveryPeers failedNodeIds : List NodeId)
    (attempt : ℕ) (trackPropagation : Bool) : Node :=
  { s.clearPeerRecordRecoveryRetryTimer with
    retryTimer := s.nextRetry record recoveryPeers failedNodeIds attempt trackPropagation }

/-- `#publishCurrentPeerRecord` has returned to the caller that waits for it, or thrown. -/
def published (publisher : Publisher) (ok : Bool) : Node :=
  match publisher with
  | .worker =>
    { s with publishInFlight := s.publishInFlight.map fun work =>
      if work.stage = .publishing then { work with stage := if ok then .returned else .left }
      else work }
  | .renewal =>
    { s with renewalInFlight := s.renewalInFlight.map fun renewal =>
      if renewal.stage = .publishing then { renewal with stage := .ended } else renewal }
  | .start call =>
    if s.starts[call]? = some .publishing then { s with starts := s.starts.set call .ended } else s

/-- Up to the announcement. `valid` is that the record still verifies. -/
def publishCurrentPeerRecord (record : Record) (publisher : Publisher) (valid : Bool) : Node :=
  if !s.live || !s.isLocal record.recordId then s.published publisher true
  else
    let peers := s.closest
    let s := s.resetPeerRecordPropagation record peers
    let pendingPeers := peers.filter (· ∈ s.propagation.pendingNodeIds)
    if valid then
      { s with announcements := s.announcements ++
        [⟨record, pendingPeers, false, true, .publish publisher peers, .inFlight⟩] }
    else s.published publisher false

/-- One round of the loop of `#runPeerRecordPublish`. -/
def publishRound (recordId : JsString) (valid : Bool) : Node :=
  let s := { s with publishDirty := false, publishInFlight := some ⟨recordId, .publishing⟩ }
  match s.localPeerRecord with
  | some record =>
    if !s.live || record.recordId ≠ recordId then
      { s with publishInFlight := some ⟨recordId, .left⟩ }
    else s.publishCurrentPeerRecord record .worker valid
  | none => { s with publishInFlight := some ⟨recordId, .left⟩ }

def runPeerRecordPublish (record : Record) (valid : Bool) : Node :=
  if s.publishInFlight.isSome then { s with publishDirty := true }
  else s.publishRound record.recordId valid

/-! ### Events -/

def start (recordId : JsString) : Node :=
  { s with
    started := true
    closing := false
    sequence := s.sequence + 1
    localPeerRecord := some ⟨recordId, s.sequence + 1⟩
    starts := s.starts ++ [.persisting] }

def startPersisted (call : ℕ) (ok valid : Bool) : Node :=
  match s.starts[call]?, s.localPeerRecord with
  | some .persisting, some record =>
    if !ok then { s with starts := s.starts.set call .ended }
    else
      { s.resetPeerRecordPropagation record s.closest with
        starts := s.starts.set call .publishing }.publishCurrentPeerRecord record (.start call) valid
  | _, _ => s

def refreshPeerRecord (recordId : JsString) : Node :=
  if !s.started then s
  else
    let record : Record := ⟨recordId, s.sequence + 1⟩
    { s.clearPeerRecordRecoveryRetryTimer with
      sequence := s.sequence + 1
      localPeerRecord := some record }.resetPeerRecordPropagation record s.closest

def renewPeerRecord (recordId : JsString) (announce : Bool) : Node :=
  if !s.live || s.renewalInFlight.isSome then s
  else
    { s.refreshPeerRecord recordId with
      renewalInFlight := some ⟨⟨recordId, s.sequence + 1⟩, announce, .persisting⟩ }

def renewPersisted (ok valid : Bool) : Node :=
  match s.renewalInFlight with
  | some ⟨record, announce, .persisting⟩ =>
    if !ok then { s with renewalInFlight := some ⟨record, announce, .ended⟩ }
    else if announce then
      { s with renewalInFlight := some ⟨record, announce, .publishing⟩ }.publishCurrentPeerRecord
        record .renewal valid
    else
      { s.resetPeerRecordPropagation record [] with
        renewalInFlight := some ⟨record, announce, .ended⟩ }
  | _ => s

def renewed : Node :=
  match s.renewalInFlight with
  | some ⟨_, _, .ended⟩ => { s with renewalInFlight := none }
  | _ => s

/-- `#schedulePeerRecordPropagation`. -/
def schedulePeerRecordPropagation : Node :=
  match s.localPeerRecord with
  | some record =>
    if !s.live then s
    else
      let (s, changed) := s.stagePeerRecordPropagation record
      if s.propagationQueued then s
      else { s with propagationQueued := true, microtasks := s.microtasks ++ [(record, changed)] }
  | none => s

/-- Whether the microtask asks for a publish. -/
def asks (record : Record) (changed : Bool) : Bool :=
  s.live && s.isLocal record.recordId &&
    !(!changed && s.unchangedTargets record && (s.propagation.ready || s.retryTimer.isSome))

def microtask (valid : Bool) : Node :=
  match s.microtasks with
  | [] => s
  | (record, changed) :: rest =>
    let s := { s with microtasks := rest, propagationQueued := false }
    if s.asks record changed then s.runPeerRecordPublish record valid else s

def announce (record : Record) (peers : List NodeId) (replaceTargets track : Bool) : Node :=
  if !s.started then s
  else
    { s with announcements := s.announcements ++
      [⟨record, peers, replaceTargets, track, .other, .inFlight⟩] }

def setStatus (call : ℕ) (a : Announcement) (status : Status) : Node :=
  { s with announcements := s.announcements.set call { a with status := status } }

/-- All candidates of the announcement have answered. -/
def announced (call : ℕ) (results : List Bool) : Node :=
  match s.announcements[call]? with
  | none => s
  | some a =>
    match a.status with
    | .inFlight =>
      let (fulfilled, failed) := outcome a.candidates results
      let s := { s with
        acks := s.acks ++ fulfilled.map fun peer => (a.record.recordId, peer) }.setStatus call a
          (.returned failed)
      if a.trackPropagation then
        s.recordPeerRecordPropagation a.record a.candidates fulfilled a.replacePropagationTargets
      else s
    | _ => s

/-- What its owner does with the failures of an announcement. -/
def retryFailed (a : Announcement) (failed : List NodeId) : Node :=
  match a.owner with
  | .publish publisher peers =>
    let s :=
      if failed ≠ [] then s.schedulePeerRecordRecoveryRetries a.record peers failed 0 true
      else if s.propagation.recordId ≠ some a.record.recordId ∨ s.propagation.ready then
        s.clearPeerRecordRecoveryRetryTimer
      else s
    s.published publisher true
  | .retry recoveryPeers attempt =>
    if failed = [] then s
    else
      s.schedulePeerRecordRecoveryRetries a.record recoveryPeers failed (attempt + 1)
        a.trackPropagation
  | .other => s

/-- What follows the announcement, in a later microtask. -/
def conclude (call : ℕ) : Node :=
  match s.announcements[call]? with
  | none => s
  | some a =>
    match a.status with
    | .returned failed => (s.setStatus call a .concluded).retryFailed a failed
    | .threw =>
      let s := s.setStatus call a .concluded
      if s.live && s.isLocal a.record.recordId then s.retryFailed a a.candidates else s
    | _ => s

/-- The worker looks at the dirty flag. -/
def loop (valid : Bool) : Node :=
  match s.publishInFlight with
  | some ⟨recordId, .returned⟩ =>
    if s.publishDirty then s.publishRound recordId valid
    else { s with publishInFlight := some ⟨recordId, .left⟩ }
  | _ => s

def workOver : Node :=
  match s.publishInFlight with
  | some ⟨_, .left⟩ => { s with publishInFlight := none }
  | _ => s

def timer (valid : Bool) : Node :=
  match s.retryTimer with
  | none => s
  | some retry =>
    let s := { s with retryTimer := none }
    if !s.live || !s.isLocal retry.record.recordId then s
    else
      { s with announcements := s.announcements ++
        [⟨retry.record, retry.peers, false, retry.trackPropagation,
          .retry retry.recoveryPeers retry.attempt, if valid then .inFlight else .threw⟩] }

def step : Event → Node
  | .start recordId => s.start recordId
  | .startPersisted call ok valid => s.startPersisted call ok valid
  | .renew recordId announce => s.renewPeerRecord recordId announce
  | .renewPersisted ok valid => s.renewPersisted ok valid
  | .renewed => s.renewed
  | .refresh recordId => s.refreshPeerRecord recordId
  | .discover closest => { s with closest := closest, reported := false }
  | .report => { s.schedulePeerRecordPropagation with reported := true }
  | .microtask valid => s.microtask valid
  | .announce record peers replaceTargets track => s.announce record peers replaceTargets track
  | .announced call results => s.announced call results
  | .conclude call => s.conclude call
  | .loop valid => s.loop valid
  | .workOver => s.workOver
  | .timer valid => s.timer valid
  | .close =>
    { s.clearPeerRecordRecoveryRetryTimer with closing := true, propagationQueued := false }
  | .closed => { s with started := false }

def run (es : List Event) : Node := es.foldl step new

variable {s} {record : Record}

/-! ### What the parts change -/

theorem published_eq (s : Node) (publisher : Publisher) (ok : Bool) : ∃ work renewal starts,
    s.published publisher ok =
      { s with publishInFlight := work, renewalInFlight := renewal, starts := starts } := by
  cases publisher with
  | worker => exact ⟨_, _, _, rfl⟩
  | renewal => exact ⟨_, _, _, rfl⟩
  | start call =>
    simp only [published]
    split <;> exact ⟨_, _, _, rfl⟩

theorem retryFailed_eq (s : Node) (a : Announcement) (failed : List NodeId) :
    ∃ timer work renewal starts, s.retryFailed a failed = { s with
      retryTimer := timer, publishInFlight := work, renewalInFlight := renewal, starts := starts } := by
  simp only [retryFailed]
  split
  · rename_i publisher peers howner
    split
    · obtain ⟨work, renewal, starts, heq⟩ := published_eq
        (s.schedulePeerRecordRecoveryRetries a.record peers failed 0 true) publisher true
      exact ⟨_, _, _, _, heq⟩
    · split
      · obtain ⟨work, renewal, starts, heq⟩ :=
          published_eq s.clearPeerRecordRecoveryRetryTimer publisher true
        exact ⟨_, _, _, _, heq⟩
      · obtain ⟨work, renewal, starts, heq⟩ := published_eq s publisher true
        exact ⟨_, _, _, _, heq⟩
  · split <;> exact ⟨_, _, _, _, rfl⟩
  · exact ⟨_, _, _, _, rfl⟩

/-! ### Ready is truthful -/

/-- Remembered acknowledgements were given, and a placement that is ready has one of each target. -/
structure Known (s : Node) : Prop where
  acked : ∀ id, s.acked.1 = some id → ∀ peer ∈ s.acked.2, (id, peer) ∈ s.acks
  ready : ∀ id, s.propagation.recordId = some id → s.propagation.ready = true →
    ∀ peer ∈ s.propagation.targetNodeIds, (id, peer) ∈ s.acks

theorem known_new : Known new where
  acked := by simp [new]
  ready := by simp [new]

theorem Known.frame (h : Known s) {t : Node} (hacked : t.acked = s.acked)
    (hplaced : t.propagation = s.propagation) (hacks : t.acks = s.acks) : Known t where
  acked := by
    rw [hacked, hacks]
    exact h.acked
  ready := by
    rw [hplaced, hacks]
    exact h.ready

theorem Known.ackedFor (h : Known s) : ∀ peer ∈ s.ackedNodeIdsFor record,
    (record.recordId, peer) ∈ s.acks := by
  intro peer hpeer
  rw [ackedNodeIdsFor] at hpeer
  split at hpeer
  · rename_i hid
    exact h.acked _ hid peer hpeer
  · cases hpeer

theorem known_placed {targets acked : List NodeId}
    (hacked : ∀ peer ∈ acked, (record.recordId, peer) ∈ s.acks) : Known (s.placed record targets acked) where
  acked := by
    rintro _ ⟨⟩
    exact hacked
  ready := by
    rintro _ ⟨⟩ hready peer hpeer
    have hnone : (sortStrings (setOf targets)).filter (· ∉ acked) = [] :=
      List.length_eq_zero_iff.mp (of_decide_eq_true hready)
    refine hacked peer ?_
    by_contra hpending
    have hmem : peer ∈ (sortStrings (setOf targets)).filter (· ∉ acked) :=
      List.mem_filter.mpr ⟨hpeer, decide_eq_true hpending⟩
    rw [hnone] at hmem
    cases hmem

theorem Known.reset (h : Known s) (record : Record) (peers : List NodeId) :
    Known (s.resetPeerRecordPropagation record peers) := known_placed h.ackedFor

theorem Known.stage (h : Known s) : Known (s.stagePeerRecordPropagation record).1 := by
  simp only [stagePeerRecordPropagation]
  split
  · exact h
  · split
    · exact h
    · exact h.reset record s.closest

theorem Known.published (h : Known s) (publisher : Publisher) (ok : Bool) :
    Known (s.published publisher ok) := by
  obtain ⟨work, renewal, starts, heq⟩ := published_eq s publisher ok
  rw [heq]
  exact h.frame rfl rfl rfl

theorem Known.publish (h : Known s) (publisher : Publisher) (valid : Bool) :
    Known (s.publishCurrentPeerRecord record publisher valid) := by
  simp only [publishCurrentPeerRecord]
  split
  · exact h.published publisher true
  · have hreset := h.reset record s.closest
    split
    · exact hreset.frame rfl rfl rfl
    · exact hreset.published publisher false

theorem Known.round (h : Known s) (recordId : JsString) (valid : Bool) :
    Known (s.publishRound recordId valid) := by
  simp only [publishRound]
  split
  · split
    · exact h.frame rfl rfl rfl
    · refine Known.publish ?_ .worker valid
      exact h.frame rfl rfl rfl
  · exact h.frame rfl rfl rfl

theorem Known.refresh (h : Known s) (recordId : JsString) : Known (s.refreshPeerRecord recordId) := by
  simp only [refreshPeerRecord]
  split
  · exact h
  · refine Known.reset ?_ _ _
    exact h.frame rfl rfl rfl

theorem Known.announced (h : Known s) (call : ℕ) (results : List Bool) :
    Known (s.announced call results) := by
  simp only [Node.announced]
  split
  · exact h
  · rename_i a ha
    split
    · generalize (outcome a.candidates results).1 = fulfilled
      generalize (outcome a.candidates results).2 = failed
      have hmore : Known ({ s with
          acks := s.acks ++ fulfilled.map fun peer => (a.record.recordId, peer) }.setStatus call a
            (.returned failed)) :=
        ⟨fun id hid peer hpeer => List.mem_append_left _ (h.acked id hid peer hpeer),
          fun id hid hready peer hpeer => List.mem_append_left _ (h.ready id hid hready peer hpeer)⟩
      split
      · simp only [recordPeerRecordPropagation]
        split
        · exact hmore
        · refine known_placed fun peer hpeer => ?_
          rcases List.mem_append.mp hpeer with hpeer | hpeer
          · exact hmore.ackedFor peer hpeer
          · exact List.mem_append_right _ (List.mem_map.mpr ⟨peer, hpeer, rfl⟩)
      · exact hmore
    · exact h

theorem Known.step (h : Known s) (e : Event) : Known (s.step e) := by
  cases e with
  | start recordId => exact h.frame rfl rfl rfl
  | startPersisted call ok valid =>
    simp only [Node.step, startPersisted]
    split
    · split
      · exact h.frame rfl rfl rfl
      · refine Known.publish ?_ _ _
        exact (h.reset _ _).frame rfl rfl rfl
    · exact h
  | renew recordId announce =>
    simp only [Node.step, renewPeerRecord]
    split
    · exact h
    · exact (h.refresh recordId).frame rfl rfl rfl
  | renewPersisted ok valid =>
    simp only [Node.step, renewPersisted]
    split
    · split
      · exact h.frame rfl rfl rfl
      · split
        · refine Known.publish ?_ _ _
          exact h.frame rfl rfl rfl
        · exact (h.reset _ _).frame rfl rfl rfl
    · exact h
  | renewed =>
    simp only [Node.step, renewed]
    split
    · exact h.frame rfl rfl rfl
    · exact h
  | refresh recordId => exact h.refresh recordId
  | discover closest => exact h.frame rfl rfl rfl
  | report =>
    refine Known.frame (s := s.schedulePeerRecordPropagation) ?_ rfl rfl rfl
    simp only [schedulePeerRecordPropagation]
    split
    · split
      · exact h
      · split
        · exact h.stage
        · exact h.stage.frame rfl rfl rfl
    · exact h
  | microtask valid =>
    simp only [Node.step, Node.microtask]
    split
    · exact h
    · split
      · simp only [runPeerRecordPublish]
        split
        · exact h.frame rfl rfl rfl
        · refine Known.round ?_ _ _
          exact h.frame rfl rfl rfl
      · exact h.frame rfl rfl rfl
  | announce record peers replaceTargets track =>
    simp only [Node.step, Node.announce]
    split
    · exact h
    · exact h.frame rfl rfl rfl
  | announced call results => exact h.announced call results
  | conclude call =>
    simp only [Node.step, Node.conclude]
    split
    · exact h
    · rename_i a ha
      split
      · rename_i failed hstatus
        obtain ⟨timer, work, renewal, starts, heq⟩ := retryFailed_eq (s.setStatus call a .concluded) a failed
        rw [heq]
        exact h.frame rfl rfl rfl
      · split
        · obtain ⟨timer, work, renewal, starts, heq⟩ :=
            retryFailed_eq (s.setStatus call a .concluded) a a.candidates
          rw [heq]
          exact h.frame rfl rfl rfl
        · exact h.frame rfl rfl rfl
      · exact h
  | loop valid =>
    simp only [Node.step, Node.loop]
    split
    · split
      · exact h.round _ _
      · exact h.frame rfl rfl rfl
    · exact h
  | workOver =>
    simp only [Node.step, Node.workOver]
    split
    · exact h.frame rfl rfl rfl
    · exact h
  | timer valid =>
    simp only [Node.step, Node.timer]
    split
    · exact h
    · split <;> exact h.frame rfl rfl rfl
  | close => exact h.frame rfl rfl rfl
  | closed => exact h.frame rfl rfl rfl

theorem known_run (es : List Event) : Known (run es) := by
  induction es using List.reverseRecOn with
  | nil => exact known_new
  | append_singleton es e ih =>
    rw [run, List.foldl_concat]
    exact ih.step e

/-- Whenever the propagation is ready, each target has acknowledged the record the node has now. -/
theorem ready_truthful (es : List Event) :
    (run es).peerRecordPropagationReady = true → ∃ record, (run es).localPeerRecord = some record ∧
      (run es).propagation.recordId = some record.recordId ∧
      ∀ peer ∈ (run es).propagation.targetNodeIds, (record.recordId, peer) ∈ (run es).acks := by
  intro hready
  simp only [peerRecordPropagationReady, Bool.and_eq_true, Option.any_eq_true, decide_eq_true_eq] at hready
  obtain ⟨-, record, hlocal, hid, hplaced⟩ := hready
  exact ⟨record, hlocal, hid, (known_run es).ready _ hid hplaced⟩

/-- Two peers are found, one fails at first, and is reached by the retry. -/
def retried : List Event :=
  [.discover [js "a", js "b"], .start (js "r1"), .startPersisted 0 true true,
    .announced 0 [true, false], .conclude 0, .timer true, .announced 1 [true], .conclude 1]

theorem ready_truthful_retried : (run retried).propagation.targetNodeIds = [js "a", js "b"] ∧
    ∃ record, (run retried).localPeerRecord = some record ∧
      (run retried).propagation.recordId = some record.recordId ∧
      ∀ peer ∈ (run retried).propagation.targetNodeIds, (record.recordId, peer) ∈ (run retried).acks :=
  ⟨by rfl, ready_truthful retried (by rfl)⟩

end Node

end Truyn.Propagation
