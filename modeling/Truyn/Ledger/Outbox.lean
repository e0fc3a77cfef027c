import Truyn.Ledger.Events
import Truyn.Js.Dates

/-! ledger:outbox | the stored document of a NEED, and room for every acknowledgement

    The outbox of a NEED is a part of its document, and a document may have `maxDocumentBytes`
    bytes. An acknowledgement puts a date where `null` was, so `packed` keeps 24 bytes for every
    pending event. This module has the JSON text of the document, and besides the four calls of
    `Cosmos` the two others that write it: `compactNeed`, which gives up the payloads of
    acknowledged PARTIAL frames, and `commitRecoveredResult`, which completes a NEED from a
    recovered effect.

    In every run every event of an outbox can be acknowledged by its own id, in any order
    (`deliveries_acknowledgeable`). -/

namespace Truyn.Ledger.Outbox
open Async Cas Cosmos

/-- The ledger's options, and the hash it makes document ids with. -/
structure Limits where
  maxDocumentBytes : ℕ
  maxDeliveriesPerNeed : ℕ
  maxCasAttempts : ℕ
  hash : JsString → JsString

/-- A reading of a host's clock, up to the end of the year 9999. -/
structure Clock where
  time : Time
  fourDigits : 0 ≤ yearOf time ∧ yearOf time ≤ 9999

/-- What a document has besides the fields that the four calls look at: the JSON text of its paid
    authorization and of the usage record of a recovered result, and which outbox items had their
    payload compacted, when. -/
structure Extras where
  paidJson : JsString
  recoveredUsage : Option JsString
  payloadCompactedAt : JsString → Option Time

/-- The stored document of a NEED. -/
structure StoredNeed extends Doc, Extras

/-! ### The text of a document -/

def kindText : Kind → JsString
  | .NEED => js "NEED"
  | .PARTIAL => js "PARTIAL"
  | .RESULT => js "RESULT"
  | .REVOKE => js "REVOKE"
  | .other s => s

def statusText : NeedStatus → JsString
  | .matched => js "matched"
  | .completed => js "completed"
  | .cancelled => js "cancelled"
  | .failed => js "failed"

def dateText : Option Time → JsString
  | none => js "null"
  | some t => quote (toISOString t)

/-- The members of an outbox item in front of its date; a compacted one has no event. -/
def itemHead (compacted : Bool) (i : OutboxItem) : List (JsString × JsString) :=
  [(js "eventId", quote i.eventId), (js "recipient", quote i.recipient),
    (js "kind", quote (kindText i.kind)),
    (js "event", if compacted then js "null" else i.event.json)]

/-- What compaction adds to an item: the digest of its event, and when. -/
def compaction (hash : JsString → JsString) (i : OutboxItem) (t : Time) :
    List (JsString × JsString) :=
  [(js "eventDigest", quote (hash i.event.json)),
    (js "payloadCompactedAt", quote (toISOString t))]

def itemText (hash : JsString → JsString) (compactedAt : JsString → Option Time)
    (i : OutboxItem) : JsString :=
  object (itemHead (compactedAt i.eventId).isSome i ++
    (js "acknowledgedAt", dateText i.acknowledgedAt) ::
      ((compactedAt i.eventId).map (compaction hash i)).getD [])

/-- `partitionId('need', id)`. -/
def partitionId (hash : JsString → JsString) (id : JsString) : JsString := js "need-" ++ hash id

/-- The members of a document in front of its version. -/
def idMembers (hash : JsString → JsString) (s : StoredNeed) : List (JsString × JsString) :=
  [(js "id", quote (partitionId hash s.logicalId)),
    (js "partitionKey", quote (partitionId hash s.logicalId)), (js "schemaVersion", js "1"),
    (js "kind", quote (js "need")), (js "logicalId", quote s.logicalId)]

/-- The members between the version and the outbox. -/
def stateMembers (s : StoredNeed) : List (JsString × JsString) :=
  [(js "createdAt", quote (toISOString s.createdAt)), (js "ttl", js "-1"),
    (js "requester", quote s.requester), (js "provider", quote s.provider),
    (js "fingerprint", quote s.fingerprint), (js "capability", quote s.capability),
    (js "mode", quote s.mode), (js "scope", quote s.scope),
    (js "policyDigest", quote s.policyDigest), (js "status", quote (statusText s.status)),
    (js "paidAuthorization", s.paidJson), (js "terminalAt", dateText s.terminalAt),
    (js "partialSequence", numeral s.partialSequence),
    (js "partialDigest", (s.partialDigest.map quote).getD (js "null"))]

/-- `JSON.stringify(doc)`. -/
def text (hash : JsString → JsString) (s : StoredNeed) : JsString :=
  object (idMembers hash s ++ (js "version", numeral s.version) ::
    (stateMembers s ++
      (js "deliveries", array (s.deliveries.map (itemText hash s.payloadCompactedAt))) ::
        s.recoveredUsage.toList.map fun u => (js "recoveredUsage", u)))

/-- The options of `Cosmos`, for documents with these extras. -/
def config (L : Limits) (x : Extras) : Config where
  maxDocumentBytes := L.maxDocumentBytes
  maxDeliveriesPerNeed := L.maxDeliveriesPerNeed
  maxCasAttempts := L.maxCasAttempts
  bytes := fun d => byteLength (text L.hash ⟨d, x⟩)

/-! ### Calls -/

/-- `commitRecoveredResult`: the NEED and its signed RESULT. `verified` tells whether the envelopes,
    the effect and its receipt passed the checks made before the document is read; `binds` compares
    the recorded fingerprint and event of the NEED with the one given, `confirms` a usage record and
    the RESULTs of a NEED that is complete already. -/
structure Recovery where
  id : JsString
  requester : JsString
  provider : JsString
  delivery : Option Delivery
  usageRecord : JsString
  verified : Bool
  binds : JsString → Event → Bool
  confirms : JsString → List Event → Bool

/-- The calls that write the document of a NEED; a reservation has the JSON text of its paid
    authorization with it. -/
inductive Request
  | ledger (c : Call) (paidJson : JsString)
  | compactNeed (id requester : JsString)
  | commitRecoveredResult (c : Recovery)

/-- The extras of a fresh reservation. -/
def fresh (paidJson : JsString) : Extras := ⟨paidJson, none, fun _ => none⟩

/-- The items whose payload `compactNeed` gives up. -/
def compactable (s : StoredNeed) : List JsString :=
  (s.deliveries.filter fun e => e.kind = .PARTIAL ∧ e.acknowledgedAt.isSome ∧
    (s.payloadCompactedAt e.eventId).isNone).map OutboxItem.eventId

def compactNeed (requester : JsString) (now : Time) (s : StoredNeed) :
    Except Fault (Option StoredNeed) :=
  match authorize s.toDoc (some requester) none with
  | .error f => .error f
  | .ok () =>
    if s.status = .matched then .error ⟨409, "lifecycle_compaction_requires_terminal"⟩
    else if compactable s = [] then .ok none
    else .ok (some { s with
      payloadCompactedAt := fun e => if e ∈ compactable s then some now else s.payloadCompactedAt e })

/-- The events of one kind in the outbox. -/
def eventsOf (kind : Kind) (s : StoredNeed) : List OutboxItem :=
  s.deliveries.filter fun e => e.kind = kind

def commitRecoveredResult (L : Limits) (c : Recovery) (now : Time) (s : StoredNeed) :
    Except Fault (Option StoredNeed) :=
  if s.mode ≠ js "legacy" ∨ s.requester ≠ c.requester ∨ s.provider ≠ c.provider ∨
      s.scope ≠ c.requester ∨ !(eventsOf .NEED s).head?.any fun i => c.binds s.fingerprint i.event then
    .error ⟨409, "recovered_need_binding_mismatch"⟩
  else if s.status = .completed ∧ s.recoveredUsage.isSome then
    if s.recoveredUsage.any fun u => c.confirms u ((eventsOf .RESULT s).map OutboxItem.event) then
      .ok none
    else .error ⟨409, "recovered_result_conflict"⟩
  else if s.status ≠ .matched then .error (terminalFault s.status)
  else if s.recoveredUsage.isSome then .error ⟨409, "recovered_result_conflict"⟩
  else
    match appendDelivery (config L s.toExtras) s.toDoc c.delivery .RESULT s.requester with
    | .error f => .error f
    | .ok d => .ok (some { s with
        toDoc := { d with status := .completed, terminalAt := some now }
        recoveredUsage := some c.usageRecord })

def key : Request → JsString
  | .ledger c _ => Cosmos.key c
  | .compactNeed id _ => id
  | .commitRecoveredResult c => c.id

/-- The checks before the document is read, and the document a reservation creates. -/
def plan (L : Limits) (r : Request) (now : Clock) : Except Fault (Option StoredNeed) :=
  match r with
  | .ledger c paidJson =>
    (Cosmos.plan (config L (fresh paidJson)) c now.time).map
      (Option.map fun d => ⟨d, fresh paidJson⟩)
  | .compactNeed id requester =>
    if !validNeedId id ∨ !nonempty requester then .error ⟨400, "invalid_lifecycle_compaction"⟩
    else .ok none
  | .commitRecoveredResult c =>
    if !c.verified then .error ⟨400, "invalid_recovered_result"⟩
    else if validNeedId c.id then .ok none
    else .error ⟨400, "invalid_lifecycle_id"⟩

/-- The end of a round of `mutate`: the next version must fit. -/
def write (L : Limits) (version : ℕ) :
    Except Fault (Option StoredNeed) → Except Fault (Option StoredNeed)
  | .error f => .error f
  | .ok none => .ok none
  | .ok (some next) =>
    (packed (config L next.toExtras) { next.toDoc with version := version + 1 }).map fun d =>
      some ⟨d, next.toExtras⟩

/-- One round of `mutate`. -/
def edit (L : Limits) (r : Request) (now : Clock) (s : StoredNeed) :
    Except Fault (Option StoredNeed) :=
  match r with
  | .ledger c _ =>
    (Cosmos.edit (config L s.toExtras) c now.time s.toDoc).map
      (Option.map fun d => ⟨d, s.toExtras⟩)
  | .compactNeed id requester =>
    if s.logicalId ≠ id then .error ⟨503, "lifecycle_ledger_invalid_response"⟩
    else write L s.version (compactNeed requester now.time s)
  | .commitRecoveredResult c =>
    if s.logicalId ≠ c.id then .error ⟨503, "lifecycle_ledger_invalid_response"⟩
    else write L s.version (commitRecoveredResult L c now.time s)

def client (L : Limits) : Client JsString Request Clock StoredNeed Fault where
  key := key
  plan := plan L
  edit := edit L
  retries := L.maxCasAttempts - 1
  absent := ⟨404, "lifecycle_not_found"⟩
  duplicate := ⟨409, "duplicate_request"⟩
  contention := ⟨503, "lifecycle_cas_contention"⟩

/-- Any number of replicas writing documents of NEEDs. -/
def machine (L : Limits) := Cas.machine (client L)

end Truyn.Ledger.Outbox
