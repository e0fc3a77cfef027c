import Truyn.Paid.Receipts
import Truyn.Witness.Payload
import Truyn.Js.Parse

/-! paid:recovered | the recovered result of a paid NEED, and the usage that is recorded with it

    When the RESULT of a paid NEED got lost, a finalizer reads the answer back by its stored receipt,
    signs a RESULT that the receipt determines, and commits it: one write of the NEED's document appends
    the RESULT to the outbox, records the usage and completes the NEED. The other calls of the multi-host
    ledger write the same document; they are those of `Ledger.Cosmos`, which know nothing of the usage.

    The document of the effect is not written by any of them: what a read of it gives comes with the
    call, and may be anything. -/

namespace Truyn.Paid
open Ledger Ledger.Cosmos Programs

/-- `usageRecord`. -/
structure UsageRecord where
  schema : JsString
  requestId : JsString
  requester : JsString
  provider : JsString
  effectFingerprint : JsString
  receiptDigest : JsString
  inputTokens : ℤ
  outputTokens : ℤ
  totalTokens : ℤ
  resultDigest : JsString
  vendorChargeVerified : Bool
  deriving DecidableEq, Repr

/-- The document of a NEED. -/
structure NeedDocument extends Doc where
  recoveredUsage : Option UsageRecord

/-- The ledger's options; `bytes` is the size of a document's JSON text. -/
structure NeedConfig where
  maxDocumentBytes : ℕ
  maxDeliveriesPerNeed : ℕ
  maxCasAttempts : ℕ
  attempts : 1 ≤ maxCasAttempts
  bytes : NeedDocument → ℕ

/-- The options of the calls that know nothing of the usage. -/
def NeedConfig.ledger (cfg : NeedConfig) : Config where
  maxDocumentBytes := cfg.maxDocumentBytes
  maxDeliveriesPerNeed := cfg.maxDeliveriesPerNeed
  maxCasAttempts := cfg.maxCasAttempts
  bytes doc := cfg.bytes ⟨doc, none⟩

/-- What is taken from the host; `verified` is `verifyEnvelope(envelope, {allowedTypes: [type]}).ok`. -/
structure Signatures where
  sha256 : JsString → JsString
  verified : Json → JsString → Bool

/-- What `commitRecoveredResult` is called with. -/
structure Commit where
  need : Json
  provider : JsString
  delivery : Json
  receiptDigest : JsString

/-- The clock, the caller's signal, and what `reserveCreationCapacity` comes to. -/
structure NeedOutside where
  now : Time
  aborted : Bool
  capacity : Except Fault Unit

/-- What `commitRecoveredResult` returns. -/
structure Recorded where
  recorded : Bool
  idempotent : Bool
  usageRecord : UsageRecord
  resultQueued : Bool
  terminalDelivered : Bool
  providerInvoiceVerified : Bool
  accountingSettled : Bool
  deriving DecidableEq, Repr

variable (P : Signatures) (cfg : NeedConfig)

/-! ### Values and digests -/

/-- An error that is no fault of the ledger's. -/
def typeError : Fault := ⟨500, "TypeError"⟩

/-- A member that is a string. -/
def textAt (v : Json) (key : String) : Option JsString :=
  match v.get (js key) with
  | some (.string s) => some s
  | _ => none

/-- `canonicalize(v)`; `undefined` has no canonical text. -/
def canonicalText (v : Option Json) : Except Fault JsString :=
  match v.map Json.canonicalize with
  | some (.ok text) => .ok text
  | _ => .error typeError

/-- `hash(canonicalize(v))`. -/
def canonicalDigest (v : Json) : Except Fault JsString := (canonicalText (some v)).map P.sha256

/-- The digest of an event in the outbox. -/
def eventDigest (e : Event) : Except Fault JsString :=
  match Json.parse e.json with
  | some v => canonicalDigest P v
  | none => .error typeError

/-- A RESULT event, as it is stored; its `sequence` is of no interest. -/
def resultEvent (v : Json) : Event := ⟨.RESULT, none, textAt v "requestId", v.text⟩

def count (n : ℤ) : Json := .number (.ofNat n.toNat)

def Usage.value (u : Usage) : Json :=
  .object [(js "input_tokens", count u.input_tokens), (js "output_tokens", count u.output_tokens),
    (js "total_tokens", count u.total_tokens)]

/-- A stored receipt. -/
def Receipt.value (r : Receipt) : Json :=
  .object [(js "version", count 1), (js "provider", .string (js "azure-openai")),
    (js "responseId", .string r.responseId), (js "model", .string r.model),
    (js "scopeDigest", .string r.scopeDigest), (js "outputDigest", .string r.outputDigest),
    (js "usage", r.usage.value)]

/-- `expectedMetadata`. -/
def expectedMetadata (u : Usage) (receiptDigest : JsString) : Json :=
  .object [(js "provider", .string (js "azure-openai")), (js "usage", u.value),
    (js "receiptDigest", .string receiptDigest), (js "recovered", .bool true),
    (js "usageAccounting", .string (js "operational-only")),
    (js "providerInvoiceVerified", .bool false), (js "accountingSettled", .bool false)]

/-! ### The arguments of a commit -/

def invalidRecovered : Fault := ⟨400, "invalid_recovered_result"⟩

/-- Arguments that are in order. -/
structure Submission where
  id : JsString
  requester : JsString
  provider : JsString
  receiptDigest : JsString
  output : JsString
  need : Json
  event : Json
  signed : Json
  payload : Json

/-- A signed NEED that is neither compact nor part of a chain. -/
def validNeed (need : Json) : Bool :=
  !falsy (some need) ∧ textAt need "type" = some (js "NEED") ∧ falsy (need.get (js "compact")) ∧
    falsy (need.get (js "chain")) ∧ P.verified need (js "NEED")

/-- The delivery is the provider's signed RESULT of the NEED, for its requester. -/
def validDelivery (c : Commit) (s : Submission) : Bool :=
  textAt c.delivery "kind" = some (js "RESULT") ∧
    textAt c.delivery "recipient" = some s.requester ∧
    textAt s.event "kind" = some (js "RESULT") ∧ textAt s.signed "type" = some (js "RESULT") ∧
    P.verified s.signed (js "RESULT") ∧ textAt s.signed "from" = some s.provider ∧
    textAt s.signed "to" = some s.requester ∧ textAt s.payload "requestId" = some s.id

/-- The parts of the arguments that the checks are about. -/
def parts (c : Commit) : Option Submission := do
  let id ← textAt c.need "id"
  let requester ← textAt c.need "from"
  let event ← c.delivery.get (js "event")
  let signed ← event.get (js "envelope")
  let payload ← signed.get (js "payload")
  let output ← textAt payload "output"
  pure ⟨id, requester, c.provider, c.receiptDigest, output, c.need, event, signed, payload⟩

def submission (c : Commit) : Except Fault Submission :=
  if !validNeed P c.need ∨ !nonempty c.provider ∨ !isDigest c.receiptDigest then
    .error invalidRecovered
  else
    match parts c with
    | none => .error invalidRecovered
    | some s => if validDelivery P c s then .ok s else .error invalidRecovered

/-! ### The effect and its receipt -/

def metadataFault : Fault := ⟨409, "invalid_recovered_usage_metadata"⟩

/-- `effectFingerprint`. -/
def fingerprintOf (s : Submission) : JsString :=
  P.sha256 (Json.array [.string s.id, .string s.requester,
    (s.need.get (js "payload")).getD .null]).text

/-- The effect is that of the NEED. -/
def ownEffect (s : Submission) (e : EffectRecord) : Bool :=
  e.requester = s.requester ∧ e.provider = s.provider ∧ e.fingerprint = fingerprintOf P s ∧
    receivable e.status

/-- The receipt is in order, and that of the output. -/
def ownReceipt (s : Submission) (r : Receipt) : Bool :=
  isResponseId r.responseId ∧ nonempty r.model ∧ r.model.length ≤ 256 ∧ isDigest r.scopeDigest ∧
    r.outputDigest = P.sha256 s.output ∧ r.usage.valid

/-- `usageRecord`, for the digest of the RESULT. -/
def usageRecord (s : Submission) (u : Usage) (resultDigest : JsString) : UsageRecord where
  schema := js "truyn.g5.recovered-usage/v1"
  requestId := s.id
  requester := s.requester
  provider := s.provider
  effectFingerprint := fingerprintOf P s
  receiptDigest := s.receiptDigest
  inputTokens := u.input_tokens
  outputTokens := u.output_tokens
  totalTokens := u.total_tokens
  resultDigest := resultDigest
  vendorChargeVerified := false

/-- The RESULT has the id and the time that the receipt determines. -/
def ownResult (s : Submission) (e : EffectRecord) : Bool :=
  textAt s.signed "id" = some (js "g5-recovered-" ++ P.sha256 s.id) ∧
    textAt s.signed "createdAt" = e.receiptCapturedAt.map fun t => toISOString t

/-- What is recorded of a RESULT whose receipt is that of the effect. -/
def usageOf (s : Submission) (e : EffectRecord) (r : Receipt) : Except Fault UsageRecord := do
  let digest ← canonicalDigest P r.value
  if digest ≠ s.receiptDigest then .error unverified
  else if !ownResult P s e then .error metadataFault
  else do
    let metadata ← canonicalText (s.payload.get (js "metadata"))
    let expected ← canonicalText (some (expectedMetadata r.usage s.receiptDigest))
    if metadata ≠ expected then .error metadataFault
    else (canonicalDigest P s.event).map (usageRecord P s r.usage)

/-- The usage record, for the effect as it is read. -/
def recovery (s : Submission) (effect : Option EffectRecord) : Except Fault UsageRecord :=
  match effect with
  | none => .error identityConflict
  | some e =>
    if !ownEffect P s e then .error identityConflict
    else
      match e.effectReceipt with
      | none => .error unverified
      | some r => if !ownReceipt P s r then .error unverified else usageOf P s e r

/-! ### The document of the NEED -/

/-- The RESULTs in the outbox. -/
def results (doc : NeedDocument) : List OutboxItem := doc.deliveries.filter fun d => d.kind = .RESULT

/-- `doc.deliveries.find(d => d.kind === 'NEED')?.event?.envelope`. -/
def originalNeed (doc : NeedDocument) : Option Json :=
  (doc.deliveries.find? fun d => d.kind = .NEED).bind fun d =>
    (Json.parse d.event.json).bind fun v => v.get (js "envelope")

def bindingMismatch : Fault := ⟨409, "recovered_need_binding_mismatch"⟩

def recoveredConflict : Fault := ⟨409, "recovered_result_conflict"⟩

def recoveredAborted : Fault := ⟨409, "recovered_result_aborted"⟩

/-- The document is that of the NEED, as its requester signed it. -/
def bound (requester provider : JsString) (need : Json) (doc : NeedDocument) : Except Fault Unit :=
  match originalNeed doc with
  | none => .error bindingMismatch
  | some original =>
    if doc.mode ≠ js "legacy" ∨ doc.requester ≠ requester ∨ doc.provider ≠ provider ∨
        doc.scope ≠ requester ∨ falsy (some original) ∨
        doc.fingerprint ≠ P.sha256 original.text then .error bindingMismatch
    else do
      let stored ← canonicalText (some original)
      let given ← canonicalText (some need)
      if stored ≠ given then .error bindingMismatch else .ok ()

/-- The document has the record, and the RESULT that belongs to it. -/
def records (u : UsageRecord) (doc : NeedDocument) (refusal : Fault) : Except Fault OutboxItem :=
  if doc.recoveredUsage ≠ some u then .error refusal
  else
    match results doc with
    | [terminal] => do
      let digest ← eventDigest P terminal.event
      if digest ≠ u.resultDigest then .error refusal else .ok terminal
    | _ => .error refusal

/-- The next version of the document: the RESULT, the record and the status in one write. -/
def completed (s : Submission) (u : UsageRecord) (now : Time) (doc : NeedDocument) :
    Except Fault NeedDocument :=
  match appendDelivery cfg.ledger doc.toDoc
      (some ⟨s.requester, .RESULT, some (resultEvent s.event)⟩) .RESULT doc.requester with
  | .error f => .error f
  | .ok doc' => .ok
    { toDoc := { doc' with status := .completed, terminalAt := some now }, recoveredUsage := some u }

/-- The callback of `commitRecoveredResult`. -/
def commitUpdate (s : Submission) (u : UsageRecord) (o : NeedOutside) (doc : NeedDocument) :
    Except Fault (Option NeedDocument) :=
  if o.aborted then .error recoveredAborted
  else
    match bound P s.requester s.provider s.need doc with
    | .error f => .error f
    | .ok () =>
      if doc.status = .completed ∧ doc.recoveredUsage.isSome then
        (records P u doc recoveredConflict).map fun _ => none
      else if doc.status ≠ .matched then .error (terminalFault doc.status)
      else if doc.recoveredUsage.isSome then .error recoveredConflict
      else (completed cfg s u o.now doc).map some

/-- `null`, which is left of the event of a compacted item; the digest and the time that are kept
    beside it are read by nobody. -/
def nullEvent : Event := ⟨.other [], none, none, js "null"⟩

def compactable (i : OutboxItem) : Bool :=
  i.kind = .PARTIAL ∧ i.acknowledgedAt.isSome ∧ i.event.json ≠ js "null"

def compactItem (i : OutboxItem) : OutboxItem := if compactable i then { i with event := nullEvent } else i

/-- The callback of `compactNeed`. -/
def compactUpdate (requester : JsString) (doc : NeedDocument) : Except Fault (Option NeedDocument) :=
  match authorize doc.toDoc (some requester) none with
  | .error f => .error f
  | .ok () =>
    if doc.status = .matched then .error ⟨409, "lifecycle_compaction_requires_terminal"⟩
    else if doc.deliveries.any compactable then
      .ok (some { doc with deliveries := doc.deliveries.map compactItem })
    else .ok none

/-- The callback of a call that knows nothing of the usage. -/
def ledgerUpdate (c : Ledger.Call) (o : NeedOutside) (doc : NeedDocument) :
    Except Fault (Option NeedDocument) :=
  (callback cfg.ledger o.now doc.toDoc c).map fun r => r.map fun d => { doc with toDoc := d }

/-! ### The calls -/

abbrev NeedAct := Act JsString NeedDocument NeedOutside Empty Fault

def packedNeed (doc : NeedDocument) : Except Fault NeedDocument :=
  let pending := doc.deliveries.countP fun x => x.acknowledgedAt = none
  if cfg.maxDocumentBytes < cfg.bytes doc + pending * 24 + 128 then .error capacityReached
  else .ok doc

/-- One round of `mutate`: the document read must be the one asked for, the next one must fit. -/
def needEdit (id : JsString)
    (update : NeedOutside → NeedDocument → Except Fault (Option NeedDocument)) (o : NeedOutside)
    (doc : NeedDocument) : Except Fault (Option NeedDocument) :=
  if doc.logicalId ≠ id then .error ⟨503, "lifecycle_ledger_invalid_response"⟩
  else
    match update o doc with
    | .error f => .error f
    | .ok none => .ok none
    | .ok (some next) => (packedNeed cfg { next with version := doc.version + 1 }).map some

def contention : Fault := ⟨503, "lifecycle_cas_contention"⟩

def needFaults : Act.LoopFaults Fault where
  unread := unavailable
  lost := unavailable
  absent := ⟨404, "lifecycle_not_found"⟩
  contention := contention

def needMutate (id : JsString)
    (update : NeedOutside → NeedDocument → Except Fault (Option NeedDocument)) :
    NeedAct (Bool × NeedDocument) :=
  if !validNeedId id then Act.throw ⟨400, "invalid_lifecycle_id"⟩
  else Act.mutate needFaults id (needEdit cfg id update) cfg.maxCasAttempts

/-- `reserveNeed`, `transitionNeed`, `acceptPartial` and `acknowledgeDelivery`. -/
def ledgerCall (c : Ledger.Call) : NeedAct Bool := do
  let o ← Act.ask
  match plan cfg.ledger c o.now with
  | .error f => Act.throw f
  | .ok (some doc) => do
    Act.check o.capacity
    if ← Act.put unavailable (key c) 0 ⟨doc, none⟩ then pure true
    else Act.throw ⟨409, "duplicate_request"⟩
  | .ok none => do
    let result ← needMutate cfg (key c) (ledgerUpdate cfg c)
    pure result.1

def compactNeed (id requester : JsString) : NeedAct Bool :=
  if !validNeedId id ∨ !nonempty requester then Act.throw ⟨400, "invalid_lifecycle_compaction"⟩
  else do
    let result ← needMutate cfg id fun _ => compactUpdate requester
    pure result.1

/-- What `commitRecoveredResult` checks before it reads the NEED; `effect` is what the read of the
    effect gives. -/
def prepared (c : Commit) (effect : Except Fault (Option EffectRecord)) :
    Except Fault (Submission × UsageRecord) := do
  let s ← submission P c
  let row ← effect
  let u ← recovery P s row
  pure (s, u)

def commitUnverified : Fault := ⟨503, "recovered_result_commit_unverified"⟩

/-- The row that the commit has left behind is verified once more. -/
def recordedBy (u : UsageRecord) (result : Bool × NeedDocument) : Except Fault Recorded :=
  if result.2.status ≠ .completed then .error commitUnverified
  else (records P u result.2 commitUnverified).map fun terminal =>
    { recorded := true, idempotent := !result.1, usageRecord := u
      resultQueued := terminal.acknowledgedAt.isNone, terminalDelivered := false
      providerInvoiceVerified := false, accountingSettled := false }

def commitRecoveredResult (c : Commit) (effect : Except Fault (Option EffectRecord)) :
    NeedAct Recorded := do
  let r ← Act.check (prepared P c effect)
  let result ← needMutate cfg r.1.id (commitUpdate P cfg r.1 r.2)
  Act.check (recordedBy P r.2 result)

/-! ### The finalizer -/

/-- The host of a provider; `sign` is the Ed25519 signature of a text. -/
structure Finalizer where
  nodeId : JsString
  publicKeyPem : JsString
  sign : JsString → JsString

/-- What `host.recoverStoredEffect` gives. -/
structure StoredAnswer where
  receiptBoundToEffect : Bool
  responseRetrievedByGet : Bool
  providerResponseId : JsString
  output : JsString
  usage : Usage

/-- What a finalizer is told by the access policy, the provider and the effect's document, which it
    reads itself before its commit does. -/
structure FinalAnswers where
  authorized : Except Fault Bool
  recovered : Except Fault StoredAnswer
  effect : Except Fault (Option EffectRecord)
  authorizedAgain : Except Fault Bool
  committing : Except Fault (Option EffectRecord)

/-- The signed RESULT; neither a clock nor a random number has a part in it. -/
def finalResult (F : Finalizer) (id requester output : JsString) (r : Receipt) (capturedAt : Time)
    (receiptDigest : JsString) : Except Fault Json := do
  let unsigned := [(js "protocol", .string (js "TRUYN/1")), (js "type", .string (js "RESULT")),
    (js "id", .string (js "g5-recovered-" ++ P.sha256 id)), (js "from", .string F.nodeId),
    (js "to", .string requester), (js "createdAt", .string (toISOString capturedAt)),
    (js "publicKey", .string F.publicKeyPem),
    (js "payload", .object [(js "requestId", .string id), (js "output", .string output),
      (js "metadata", expectedMetadata r.usage receiptDigest)])]
  let text ← canonicalText (some (.object unsigned))
  pure (.object (unsigned ++ [(js "signature", .string (F.sign text))]))

/-- The delivery of a RESULT event. -/
def finalDelivery (requester : JsString) (event : Json) : Json :=
  .object [(js "kind", .string (js "RESULT")), (js "recipient", .string requester),
    (js "event", event)]

/-- The answer is that of the receipt. -/
def fits (a : StoredAnswer) (r : Receipt) : Bool :=
  a.receiptBoundToEffect ∧ a.responseRetrievedByGet ∧ r.responseId = a.providerResponseId ∧
    r.outputDigest = P.sha256 a.output ∧ r.usage = a.usage

/-- The commit of an answer that was read back. -/
def finalCommit (F : Finalizer) (need : Json) (id requester : JsString) (a : StoredAnswer)
    (effect : Option EffectRecord) : Except Fault Commit :=
  match effect.bind EffectRecord.effectReceipt with
  | none => .error unverified
  | some r =>
    if !fits P a r then .error unverified
    else
      match effect.bind EffectRecord.receiptCapturedAt with
      | none => .error ⟨409, "effect_receipt_timestamp_missing"⟩
      | some capturedAt => do
        let digest ← canonicalDigest P r.value
        let result ← finalResult P F id requester a.output r capturedAt digest
        let event := .object [(js "kind", .string (js "RESULT")), (js "envelope", result)]
        pure ⟨need, F.nodeId, finalDelivery requester event, digest⟩

/-- The commit of the RESULT that the document has already. -/
def replayCommit (F : Finalizer) (need : Json) (requester : JsString) (row : NeedDocument) :
    Except Fault Commit :=
  match row.recoveredUsage with
  | none => .error (terminalFault .completed)
  | some u =>
    match (results row).head?.bind fun terminal => Json.parse terminal.event.json with
    | none => .error recoveredConflict
    | some event => .ok ⟨need, F.nodeId, finalDelivery requester event, u.receiptDigest⟩

/-- What a finalizer commits, for the document that it has read. -/
def commitFor (F : Finalizer) (need : Json) (id requester : JsString) (x : FinalAnswers)
    (row : NeedDocument) : Except Fault Commit := do
  bound P requester F.nodeId need row
  match row.status with
  | .matched => do
    let a ← x.recovered
    let effect ← x.effect
    finalCommit P F need id requester a effect
  | .completed => replayCommit F need requester row
  | status => .error (terminalFault status)

def getNeed (id : JsString) : NeedAct NeedDocument :=
  if !validNeedId id then Act.throw ⟨400, "invalid_lifecycle_id"⟩
  else do
    match ← Act.get unavailable id with
    | none => Act.throw ⟨404, "lifecycle_not_found"⟩
    | some (_, doc) =>
      if doc.logicalId ≠ id then Act.throw ⟨503, "lifecycle_ledger_invalid_response"⟩
      else pure doc

/-- The access policy has a say before anything is read, and again before anything is written. -/
def authorizedBy (r : Except Fault Bool) : Except Fault Unit :=
  match r with
  | .error f => .error f
  | .ok true => .ok ()
  | .ok false => .error ⟨403, "provider_access_denied"⟩

def invalidRecoveredNeed : Fault := ⟨400, "invalid_recovered_need"⟩

def finalize (F : Finalizer) (need : Json) (x : FinalAnswers) : NeedAct Recorded :=
  if !validNeed P need then Act.throw invalidRecoveredNeed
  else
    match textAt need "id", textAt need "from" with
    | some id, some requester => do
      Act.check (authorizedBy x.authorized)
      let row ← getNeed id
      let c ← Act.check (commitFor P F need id requester x row)
      Act.check (authorizedBy x.authorizedAgain)
      commitRecoveredResult P cfg c x.committing
    | _, _ => Act.throw invalidRecoveredNeed

inductive NeedRequest
  | ledger (c : Ledger.Call)
  | compactNeed (id requester : JsString)
  | finalize (F : Finalizer) (need : Json) (x : FinalAnswers)
  | commitRecoveredResult (c : Commit) (effect : Except Fault (Option EffectRecord))

inductive NeedReply
  | changed (b : Bool)
  | recorded (r : Recorded)
  deriving DecidableEq

/-- Any replica's calls. -/
def needProgram : NeedRequest → NeedAct NeedReply
  | .ledger c => do
    let changed ← ledgerCall cfg c
    pure (.changed changed)
  | .compactNeed id requester => do
    let changed ← compactNeed cfg id requester
    pure (.changed changed)
  | .finalize F need x => do
    let r ← finalize P cfg F need x
    pure (.recorded r)
  | .commitRecoveredResult c effect => do
    let r ← commitRecoveredResult P cfg c effect
    pure (.recorded r)

end Truyn.Paid
