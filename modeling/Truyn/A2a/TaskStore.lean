import Truyn.Trust.Claims
import Truyn.Schemes.Maps

/-! a2a:task-store | the tasks of the A2A facade, their replay markers, and what changes them

    A task is kept under its id, found by the TRUYN request it was dispatched as, and guarded by a
    marker of its owner and message id. Each mutator reads the clock and draws UUIDs: these are its
    arguments. A time is in milliseconds; a call that throws leaves what it had done. -/

namespace Truyn.A2a
open Trust (Value truthy strictEq)

/-- `A2A_TASK_STATES`. -/
inductive TaskState
  | submitted
  | working
  | completed
  | failed
  | rejected
  | inputRequired
  | authRequired
  | canceled
  deriving DecidableEq

/-- `TERMINAL`. -/
def TaskState.terminal : TaskState → Bool
  | .completed | .failed | .rejected | .canceled => true
  | _ => false

structure Status where
  state : TaskState
  timestamp : ℤ
  message : Option Value

/-- An entry of `streamEvents`; `source` and `sequence` are its metadata. -/
inductive StreamEvent
  | statusUpdate (taskId contextId : JsString) (status : Status) (source : JsString)
  | artifactUpdate (taskId contextId : JsString) (artifact : Value) (append lastChunk : Bool)
      (sequence : ℕ)

structure Task where
  id : JsString
  contextId : JsString
  ownerKey : Option JsString
  skillId : JsString
  capability : JsString
  status : Status
  artifacts : List Value
  history : List Value
  createdAt : ℤ
  lastModified : ℤ
  truynRequestId : Option JsString
  providerNodeId : Value
  providerTrust : Value
  streamArtifactId : Option JsString
  streamEvents : List StreamEvent
  nextStreamSequence : ℕ

/-! ### mapping.js -/

/-- What `normalizeOutboundA2aPart` is given. -/
inductive RawPart
  | text (s : JsString)
  | data (value : Option Value)

/-- `artifact-integrity.js`, where an error is its `code`; and `String`, which throws at `none`. -/
structure Host where
  normalizeOutboundA2aPart : RawPart → ℕ → Except (Option JsString) Value
  normalizeOutboundA2aArtifactBundle : Value → ℕ → Except (Option JsString) (List Value)
  string : Value → Option JsString

def maxArtifactBytes : ℕ := 1024 * 1024

/-- `a || b`. -/
def orValue (a : Option Value) (b : Value) : Value :=
  match a with
  | some v => if truthy (some v) then v else b
  | none => b

def isObject : Value → Bool
  | .object _ => true
  | _ => false

/-- `{ ...a, ...b }`. -/
def spread (a b : List (JsString × Value)) : List (JsString × Value) :=
  b.foldl (fun m p => Maps.set p.1 p.2 m) a

structure Provenance where
  requestId : Option JsString
  providerNodeId : Value
  trust : Value
  metadata : Value

def provenanceMetadata (p : Provenance) : List (JsString × Value) :=
  (js "io.truyn/provenance", .object ((js "protocol", .string (js "TRUYN/1")) ::
    ((p.requestId.filter (· ≠ [])).toList.map fun r => (js "requestId", .string r)) ++
    (if truthy (some p.providerNodeId) then [(js "providerNodeId", p.providerNodeId)] else []) ++
    (if truthy (some p.trust) then [(js "trust", p.trust)] else []))) ::
  (if isObject p.metadata then [(js "io.truyn/resultMetadata", p.metadata)] else [])

def artifactFromTruynResult (H : Host) (output : Option Value) (artifactId : JsString)
    (p : Provenance) : Except (Option JsString) Value := do
  let rawPart := match output with
    | some (.string s) => RawPart.text s
    | value => .data value
  let part ← H.normalizeOutboundA2aPart rawPart maxArtifactBytes
  return .object [(js "artifactId", .string artifactId), (js "name", .string (js "TRUYN result")),
    (js "parts", .array [part]), (js "metadata", .object (provenanceMetadata p))]

def isA2aArtifactBundle (value : Value) : Bool :=
  match value.get "$truyn", value.get "artifacts" with
  | some (.object members), some (.array _) =>
    strictEq ((Value.object members).get "type")
      (some (.string (js "io.truyn/a2a-artifact-bundle"))) &&
    strictEq ((Value.object members).get "version") (some (.number 1))
  | _, _ => false

/-- `{ ...artifact, metadata: { ...artifact.metadata, ...authoritative } }`. -/
def withProvenance (authoritative : List (JsString × Value)) : Value → Value
  | .object members =>
    let metadata := match (Value.object members).get "metadata" with
      | some (.object m) => m
      | _ => []
    .object (Maps.set (js "metadata") (.object (spread metadata authoritative)) members)
  | v => v

def artifactsFromTruynResult (H : Host) (output : Option Value) (artifactId : JsString)
    (p : Provenance) : Except (Option JsString) (List Value) :=
  match output.filter isA2aArtifactBundle with
  | none => (artifactFromTruynResult H output artifactId p).map fun a => [a]
  | some bundle => do
    let artifacts ← H.normalizeOutboundA2aArtifactBundle bundle maxArtifactBytes
    return artifacts.map (withProvenance (provenanceMetadata p))

/-! ### One task -/

/-- The `message` of a status. -/
def agentMessage (messageId text : JsString) (errorCode : Option JsString) : Value :=
  .object ([(js "messageId", .string messageId), (js "role", .string (js "ROLE_AGENT")),
    (js "parts", .array [.object [(js "text", .string text),
      (js "mediaType", .string (js "text/plain"))]])] ++
    errorCode.toList.map fun code =>
      (js "metadata", .object [(js "io.truyn/errorCode", .string code)]))

/-- `task.streamEvents.push(statusUpdateEvent(task, { 'io.truyn/source': source }))`. -/
def Task.pushStatus (task : Task) (source : String) : Task :=
  { task with streamEvents := task.streamEvents ++
      [.statusUpdate task.id task.contextId task.status (js source)] }

def failPartial (task : Task) (errorCode : JsString) (message : String) (uuid : JsString)
    (nowMs : ℤ) : Task :=
  { task with
    status := ⟨.failed, nowMs, some (agentMessage uuid (js message) (some errorCode))⟩
    lastModified := nowMs }.pushStatus "partial"

/-! ### The store -/

/-- `messageCorrelationKey`, before `JSON.stringify`: the owner and the message id. -/
abbrev CorrelationKey := Option JsString × JsString

structure ReplayMarker where
  taskId : JsString
  expiresAtMs : ℤ

/-- What the constructor keeps: each is positive. -/
structure Config where
  maxTasks : ℕ
  maxReplayMarkers : ℕ
  taskTtlMs : ℕ
  tasks_pos : 0 < maxTasks
  markers_pos : 0 < maxReplayMarkers
  ttl_pos : 0 < taskTtlMs

structure TaskStore where
  tasks : List (JsString × Task)
  byTruynRequestId : List (JsString × JsString)
  byMessageCorrelation : List (CorrelationKey × ReplayMarker)
  messageCorrelationByTaskId : List (JsString × CorrelationKey)

def TaskStore.new : TaskStore := ⟨[], [], [], []⟩

def messageCorrelationKey (ownerKey : Option JsString) (message : Value) :
    Option CorrelationKey :=
  match message.get "messageId" with
  | some (.string messageId) => if messageId = [] then none else some (ownerKey, messageId)
  | _ => none

namespace TaskStore
variable (H : Host) (c : Config) (s : TaskStore)

/-- The members of `task` are changed in place. -/
def put (task : Task) : TaskStore := { s with tasks := Maps.set task.id task s.tasks }

def touchReplayMarker (taskId : JsString) (nowMs : ℤ) : TaskStore :=
  match Maps.get s.messageCorrelationByTaskId taskId with
  | none => s
  | some key =>
    match Maps.get s.byMessageCorrelation key with
    | none => s
    | some _ => { s with
        byMessageCorrelation := Maps.set key ⟨taskId, nowMs + c.taskTtlMs⟩ s.byMessageCorrelation }

/-- A call that changes `task` and extends the life of its marker. -/
def update (task : Task) (nowMs : ℤ) : TaskStore :=
  (s.put task).touchReplayMarker c task.id nowMs

def delete (taskId : JsString) (forgetCorrelation : Bool) : TaskStore :=
  match Maps.get s.tasks taskId with
  | none => s
  | some task => {
      tasks := Maps.delete taskId s.tasks
      byTruynRequestId := match task.truynRequestId with
        | some requestId => Maps.delete requestId s.byTruynRequestId
        | none => s.byTruynRequestId
      byMessageCorrelation := match Maps.get s.messageCorrelationByTaskId taskId with
        | some key => if forgetCorrelation then Maps.delete key s.byMessageCorrelation
            else s.byMessageCorrelation
        | none => s.byMessageCorrelation
      messageCorrelationByTaskId := Maps.delete taskId s.messageCorrelationByTaskId }

/-- The first loop of `prune`. -/
def dropMarkers (nowMs : ℤ) : TaskStore :=
  { s with byMessageCorrelation :=
      s.byMessageCorrelation.filter fun p => ¬p.2.expiresAtMs < nowMs }

/-- The second loop of `prune`. -/
def dropTasks (threshold : ℤ) : TaskStore :=
  s.tasks.foldl (fun s p => if p.2.lastModified < threshold then s.delete p.1 true else s) s

/-- The third loop of `prune`, which throws where this is `false`; a round deletes a task. -/
def makeRoom : ℕ → TaskStore → TaskStore × Bool
  | 0, s => (s, true)
  | rounds + 1, s =>
    if s.tasks.length < c.maxTasks then (s, true)
    else match s.tasks.find? fun p => p.2.status.state.terminal with
      | none => (s, false)
      | some p => makeRoom rounds (s.delete p.2.id false)

def prune (nowMs : ℤ) : TaskStore × Bool :=
  let kept := (s.dropMarkers nowMs).dropTasks (nowMs - c.taskTtlMs)
  makeRoom c kept.tasks.length kept

end TaskStore

inductive CreateError
  | taskCapacity
  | messageIdReplay
  | replayCapacity
  deriving DecidableEq

/-- What `create` is given, the two readings of the clock, and its UUIDs. -/
structure CreateArgs where
  ownerKey : Option JsString
  contextId : Option JsString
  message : Value
  skillId : JsString
  capability : JsString
  pruneMs : ℤ
  createdAtMs : ℤ
  taskUuid : JsString
  contextUuid : JsString

def CreateArgs.key (a : CreateArgs) : Option CorrelationKey :=
  messageCorrelationKey a.ownerKey a.message

/-- What the dispatch of a task has found. -/
structure StartArgs where
  truynRequestId : JsString
  providerNodeId : Value
  providerTrust : Value

/-- The task that `create` stores. -/
def CreateArgs.task (a : CreateArgs) : Task where
  id := a.taskUuid
  contextId := (a.contextId.filter (· ≠ [])).getD a.contextUuid
  ownerKey := a.ownerKey
  skillId := a.skillId
  capability := a.capability
  status := ⟨.submitted, a.createdAtMs, none⟩
  artifacts := []
  history := [a.message]
  createdAt := a.createdAtMs
  lastModified := a.createdAtMs
  truynRequestId := none
  providerNodeId := .null
  providerTrust := .null
  streamArtifactId := none
  streamEvents := []
  nextStreamSequence := 0

def Task.started (task : Task) (a : StartArgs) (nowMs : ℤ) : Task :=
  { task with
    truynRequestId := some a.truynRequestId
    providerNodeId := a.providerNodeId
    providerTrust := orValue (some a.providerTrust) .null
    status := ⟨.working, nowMs, none⟩
    lastModified := nowMs }

namespace TaskStore
variable (H : Host) (c : Config) (s : TaskStore)

def create (a : CreateArgs) : TaskStore × Except CreateError Task :=
  match s.prune c a.pruneMs with
  | (s, false) => (s, .error .taskCapacity)
  | (s, true) =>
    match a.key with
    | none => (s.put a.task, .ok a.task)
    | some key =>
      if (Maps.get s.byMessageCorrelation key).isSome then (s, .error .messageIdReplay)
      else if c.maxReplayMarkers ≤ s.byMessageCorrelation.length then (s, .error .replayCapacity)
      else ({ s.put a.task with
          byMessageCorrelation := Maps.set key ⟨a.taskUuid, a.createdAtMs + c.taskTtlMs⟩
            s.byMessageCorrelation
          messageCorrelationByTaskId := Maps.set a.taskUuid key s.messageCorrelationByTaskId },
        .ok a.task)

/-- `none` where it throws. -/
def start (taskId : JsString) (a : StartArgs) (nowMs : ℤ) : Option TaskStore :=
  match Maps.get s.tasks taskId with
  | none => none
  | some task =>
    if a.truynRequestId = [] then none
    else some ({ s with
      byTruynRequestId := Maps.set a.truynRequestId task.id s.byTruynRequestId }.update c
        (task.started a nowMs) nowMs)

/-- `none` where there is no task, or where the text of the message throws. -/
def reject (taskId : JsString) (message : Value) (uuid : JsString) (nowMs : ℤ) :
    Option TaskStore :=
  match Maps.get s.tasks taskId,
      H.string (orValue (some message) (.string (js "Task rejected"))) with
  | some task, some text =>
    some (s.update c ({ task with
      status := ⟨.rejected, nowMs, some (agentMessage uuid text none)⟩
      lastModified := nowMs }.pushStatus "dispatch") nowMs)
  | _, _ => none

def cancel (taskId : JsString) (message : Value) (uuid : JsString) (nowMs : ℤ) : TaskStore :=
  match Maps.get s.tasks taskId, H.string message with
  | some task, some text =>
    if task.status.state.terminal then s
    else s.update c ({ task with
      status := ⟨.canceled, nowMs, some (agentMessage uuid text none)⟩
      lastModified := nowMs }.pushStatus "revoke") nowMs
  | _, _ => s

end TaskStore

/-- What a RESULT says. -/
structure ResultArgs where
  output : Option Value
  metadata : Value
  providerNodeId : Value
  providerTrust : Value

/-- The reading of the clock, and the UUIDs that a mutator may draw. -/
structure Draws where
  nowMs : ℤ
  messageUuid : JsString
  artifactUuid : JsString

/-- The body of `completeResult` for a task that is not terminal, and whether it throws. -/
def Task.settled (H : Host) (task : Task) (r : ResultArgs) (d : Draws) : Task × Bool :=
  let task := { task with
    providerNodeId := orValue (some r.providerNodeId) task.providerNodeId
    providerTrust := orValue (some r.providerTrust) task.providerTrust
    lastModified := d.nowMs }
  if truthy (r.metadata.get "failed") then
    match H.string (orValue (r.metadata.get "error")
        (.string (js "TRUYN provider execution failed"))) with
    | none => (task, true)
    | some text => ({ task with
        status := ⟨.failed, d.nowMs, some (agentMessage d.messageUuid text none)⟩
        }.pushStatus "result", false)
  else
    match artifactsFromTruynResult H r.output d.artifactUuid
        ⟨task.truynRequestId, task.providerNodeId, task.providerTrust, r.metadata⟩ with
    | .ok artifacts => ({ task with
        artifacts, status := ⟨.completed, d.nowMs, none⟩ }.pushStatus "result", false)
    | .error code => ({ task with
        artifacts := []
        status := ⟨.failed, d.nowMs, some (agentMessage d.messageUuid
          (js "TRUYN result failed A2A artifact integrity validation")
          (some (code.getD (js "A2A_ARTIFACT_MAPPING_FAILED"))))⟩ }.pushStatus "result", false)

/-- `Number.isSafeInteger(sequence) && sequence >= 0`, and the number. -/
def safeSequence : Option Value → Option ℕ
  | some (.number x) =>
    if x.den = 1 ∧ 0 ≤ x.num ∧ x.num ≤ 9007199254740991 then some x.num.toNat else none
  | _ => none

/-- The branch of `recordCompactEvent` for a PARTIAL. -/
def Task.partialised (H : Host) (task : Task) (event : Value) (requestId : JsString) (d : Draws) :
    Task :=
  let payload := event.get "payload"
  match safeSequence (payload.bind fun v => v.get "sequence"),
      payload.bind fun v => v.get "delta" with
  | _, none => failPartial task (js "A2A_PARTIAL_DELTA_REQUIRED")
      "TRUYN partial failed A2A stream ordering validation" d.messageUuid d.nowMs
  | none, some _ => failPartial task (js "A2A_PARTIAL_SEQUENCE_INVALID")
      "TRUYN partial failed A2A stream ordering validation" d.messageUuid d.nowMs
  | some sequence, some delta =>
    if sequence ≠ task.nextStreamSequence then
      failPartial task (js "A2A_PARTIAL_SEQUENCE_MISMATCH")
        "TRUYN partial failed A2A stream ordering validation" d.messageUuid d.nowMs
    else
      let artifactId := task.streamArtifactId.getD d.artifactUuid
      let task := { task with streamArtifactId := some artifactId }
      match artifactFromTruynResult H (some delta) artifactId ⟨some requestId,
          orValue (event.get "from") task.providerNodeId, orValue (event.get "trust")
          task.providerTrust, orValue (payload.bind fun v => v.get "metadata") .null⟩ with
      | .ok artifact => { task with
          streamEvents := task.streamEvents ++ [.artifactUpdate task.id task.contextId artifact
            (0 < sequence) false sequence]
          nextStreamSequence := task.nextStreamSequence + 1
          lastModified := d.nowMs }
      | .error code => failPartial task (code.getD (js "A2A_PARTIAL_MAPPING_FAILED"))
          "TRUYN partial failed A2A artifact integrity validation" d.messageUuid d.nowMs

namespace TaskStore
variable (H : Host) (c : Config) (s : TaskStore)

/-- The store, and whether the call throws; also below. -/
def completeResult (task : Task) (r : ResultArgs) (d : Draws) : TaskStore × Bool :=
  if task.status.state.terminal then (s, false)
  else
    let settled := task.settled H r d
    (s.update c settled.1 d.nowMs, settled.2)

/-- `this.tasks.get(this.byTruynRequestId.get(requestId))`. -/
def findByRequest : Option Value → Option Task
  | some (.string requestId) =>
    (Maps.get s.byTruynRequestId requestId).bind fun taskId => Maps.get s.tasks taskId
  | _ => none

/-- `value?.verification?.ok === true`. -/
def verified (event : Value) : Bool :=
  strictEq ((event.get "verification").bind fun v => v.get "ok") (some (.bool true))

/-- `metadata && typeof metadata === 'object' ? metadata : {}`. -/
def metadataOf : Option Value → Value
  | some (.object m) => .object m
  | some (.array l) => .array l
  | _ => .object []

/-- `event.envelope?.payload`, and `event.envelope?.from`. -/
def envelopeOf (event : Value) : Option Value × Option Value :=
  let envelope := event.get "envelope"
  (envelope.bind fun v => v.get "payload", envelope.bind fun v => v.get "from")

def completeFromTruynEvent (event : Value) (d : Draws) : TaskStore × Bool :=
  if !strictEq (event.get "kind") (some (.string (js "RESULT"))) || !verified event then (s, false)
  else
    let (payload, sender) := envelopeOf event
    match s.findByRequest (payload.bind fun v => v.get "requestId") with
    | none => (s, false)
    | some task =>
      if truthy (some task.providerNodeId) && !strictEq sender (some task.providerNodeId) then
        (s, false)
      else s.completeResult H c task ⟨payload.bind fun v => v.get "output",
        metadataOf (payload.bind fun v => v.get "metadata"),
        orValue sender task.providerNodeId, orValue (event.get "trust") task.providerTrust⟩ d

/-- `event.requestId || event.frame?.i`. -/
def compactRequestId (event : Value) : Option Value :=
  if truthy (event.get "requestId") then event.get "requestId"
  else (event.get "frame").bind fun v => v.get "i"

def recordCompactEvent (event : Value) (d : Draws) : TaskStore × Bool :=
  if !verified event then (s, false)
  else
    let sender := event.get "from"
    match s.findByRequest (compactRequestId event), compactRequestId event with
    | some task, some (.string requestId) =>
      if truthy (some task.providerNodeId) && truthy sender &&
          !strictEq sender (some task.providerNodeId) then (s, false)
      else if task.status.state.terminal then (s, false)
      else if strictEq (event.get "kind") (some (.string (js "PARTIAL"))) then
        (s.update c (task.partialised H event requestId d) d.nowMs, false)
      else if strictEq (event.get "kind") (some (.string (js "RESULT"))) then
        let payload := event.get "payload"
        s.completeResult H c task ⟨payload.bind fun v => v.get "output",
          metadataOf (payload.bind fun v => v.get "metadata"),
          orValue sender task.providerNodeId, orValue (event.get "trust") task.providerTrust⟩ d
      else (s, false)
    | _, _ => (s, false)

end TaskStore

/-! ### Calls -/

/-- A call of the store; `get` and `getAccessible` change it as `prune` does. -/
inductive Op
  | create (a : CreateArgs)
  | prune (nowMs : ℤ)
  | start (taskId : JsString) (a : StartArgs) (nowMs : ℤ)
  | reject (taskId : JsString) (message : Value) (uuid : JsString) (nowMs : ℤ)
  | cancel (taskId : JsString) (message : Value) (uuid : JsString) (nowMs : ℤ)
  | completeResult (taskId : JsString) (r : ResultArgs) (d : Draws)
  | completeFromTruynEvent (event : Value) (d : Draws)
  | recordCompactEvent (event : Value) (d : Draws)
  | delete (taskId : JsString) (forgetCorrelation : Bool)
  | touchReplayMarker (taskId : JsString) (nowMs : ℤ)

/-- A store, the UUIDs it has given to tasks, and the tasks that no mutator was called for yet. -/
structure World where
  store : TaskStore
  issued : List JsString
  fresh : List JsString

def World.init : World := ⟨.new, [], []⟩

def World.unfresh (w : World) (taskId : JsString) (store : TaskStore) : World :=
  { w with store, fresh := w.fresh.filter (· ≠ taskId) }

/-- A call; `none` only where a UUID is drawn twice. -/
def step (H : Host) (c : Config) (w : World) : Op → Option World
  | .create a =>
    if a.taskUuid ∈ w.issued then none
    else some ⟨(w.store.create c a).1, a.taskUuid :: w.issued, a.taskUuid :: w.fresh⟩
  | .prune nowMs => some { w with store := (w.store.prune c nowMs).1 }
  | .start taskId a nowMs =>
    match w.store.start c taskId a nowMs with
    | some store => some (w.unfresh taskId store)
    | none => some w
  | .reject taskId message uuid nowMs =>
    match w.store.reject H c taskId message uuid nowMs with
    | some store => some (w.unfresh taskId store)
    | none => some w
  | .cancel taskId message uuid nowMs =>
    some (w.unfresh taskId (w.store.cancel H c taskId message uuid nowMs))
  | .completeResult taskId r d =>
    match Maps.get w.store.tasks taskId with
    | some task => some (w.unfresh taskId (w.store.completeResult H c task r d).1)
    | none => some w
  | .completeFromTruynEvent event d =>
    some { w with store := (w.store.completeFromTruynEvent H c event d).1 }
  | .recordCompactEvent event d =>
    some { w with store := (w.store.recordCompactEvent H c event d).1 }
  | .delete taskId forgetCorrelation =>
    some { w with store := w.store.delete taskId forgetCorrelation }
  | .touchReplayMarker taskId nowMs =>
    some { w with store := w.store.touchReplayMarker c taskId nowMs }

end Truyn.A2a
