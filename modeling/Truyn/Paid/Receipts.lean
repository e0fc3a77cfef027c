import Truyn.Ledger.Effects
import Truyn.Js.Json
import Truyn.Schemes.Acts

/-! paid:receipts | durable receipts of paid effects

    A paid effect is one document of the multi-host ledger. The wrapped adapter claims it before it
    issues the paid POST (`receiptExecution`), and stores the receipt of the answer in the same
    document (`effectReceipt`). When the answer got lost, `recoverStoredEffect` and
    `recoverUnknownEffect` read it back from the provider, by the stored receipt or by what an
    independent witness says about the claim.

    Providers, witnesses, clocks and abort signals are outside: each answer of theirs is what
    `Act.ask` returns, and may be anything. A deadline of `boundedWitnessIO` is a fault of theirs, or
    a caller that no longer listens. -/

namespace Truyn.Paid
open Ledger Ledger.Cosmos Programs

structure Usage where
  input_tokens : ℤ
  output_tokens : ℤ
  total_tokens : ℤ
  deriving DecidableEq, Repr

/-- Usage as somebody reports it; a count that is no number is `none`. -/
structure ReportedUsage where
  input_tokens : Option ℤ
  output_tokens : Option ℤ
  total_tokens : Option ℤ
  deriving DecidableEq, Repr

structure Receipt where
  responseId : JsString
  model : JsString
  scopeDigest : JsString
  outputDigest : JsString
  usage : Usage
  deriving DecidableEq, Repr

/-- A receipt before its fields are checked. -/
structure ReceiptValue where
  provider : JsString
  responseId : Option JsString
  model : Option JsString
  scopeDigest : JsString
  outputDigest : JsString
  usage : Option ReportedUsage

/-- Who executes an effect, and under which correlation. -/
structure Claim where
  token : JsString
  claimedAt : Time
  scopeDigest : Option JsString
  correlationId : Option JsString
  deriving DecidableEq, Repr

/-- The document of an effect. -/
structure EffectRecord extends EffectDoc where
  receiptExecution : Option Claim
  effectReceipt : Option Receipt
  receiptCapturedAt : Option Time

/-- The effect that a NEED stands for. -/
structure Binding where
  id : JsString
  provider : JsString
  requester : JsString
  fingerprint : JsString

/-- A direct NEED, with the JSON text of its payload, at a node. -/
structure Need where
  id : JsString
  requester : JsString
  payload : JsString
  chain : Bool
  nodeId : JsString

/-- What the adapter's `execute` returns. -/
structure Executed where
  provider : JsString
  providerStoredResponse : Bool
  providerResponseStatus : JsString
  providerRequestId : Option JsString
  model : Option JsString
  usage : Option ReportedUsage
  correlation : Option (JsString × JsString)
  output : Option JsString

/-- What `retrieveResponseReceipt` returns. -/
structure Retrieved where
  responseRetrievedByGet : Bool
  provider : JsString
  providerResponseId : Option JsString
  providerModel : Option JsString
  usage : Option ReportedUsage
  correlation : Option (JsString × JsString)
  output : Option JsString

/-- The witness record that a correlation was found under. -/
structure Witnessed where
  responseId : JsString
  model : JsString
  usage : ReportedUsage
  outputDigest : JsString

/-- An answer of the world outside; each question looks at its own field. -/
structure Outside where
  now : Time
  aborted : Bool
  randomUUID : JsString
  capacity : Except Fault Unit
  executed : Except Fault Executed
  retrieved : Except Fault Retrieved
  witnessed : Except Fault Witnessed

/-- What a call is seen to do: it won the claim, it issues the paid POST, it stored the receipt. -/
inductive Deed
  | claimed (effect token : JsString)
  | post (effect : JsString)
  | captured (effect token : JsString)
  deriving DecidableEq, Repr

/-- One host's configuration. -/
structure Host where
  scopeDigest : JsString
  correlated : Bool
  maxDocumentBytes : ℕ
  maxCasAttempts : ℕ
  bytes : EffectRecord → ℕ

abbrev EffectAct := Act JsString EffectRecord Outside Deed Fault

/-! ### Checks -/

/-- `/^[a-f0-9]{64}$/`. -/
def isDigest (s : JsString) : Bool :=
  s.length = 64 ∧ s.all fun u => (48 ≤ u ∧ u ≤ 57) ∨ (97 ≤ u ∧ u ≤ 102)

/-- `/^resp_[a-zA-Z0-9_-]{1,200}$/`. -/
def isResponseId (s : JsString) : Bool :=
  s.take 5 = js "resp_" ∧ 1 ≤ (s.drop 5).length ∧ (s.drop 5).length ≤ 200 ∧
    (s.drop 5).all fun u => (97 ≤ u ∧ u ≤ 122) ∨ (65 ≤ u ∧ u ≤ 90) ∨ (48 ≤ u ∧ u ≤ 57) ∨ u = 95 ∨ u = 45

def unverified : Fault := ⟨409, "effect_receipt_unverified"⟩

/-- Counts that are whole, not negative, and add up. -/
def Usage.valid (u : Usage) : Bool :=
  [u.input_tokens, u.output_tokens, u.total_tokens].all (fun k => isSafeInteger k ∧ 0 ≤ k) ∧
    isSafeInteger (u.input_tokens + u.output_tokens) ∧
    u.input_tokens + u.output_tokens = u.total_tokens

def receipt (v : ReceiptValue) : Except Fault Receipt :=
  match v.responseId, v.model, v.usage with
  | some responseId, some model, some ⟨some input, some output, some total⟩ =>
    if v.provider ≠ js "azure-openai" ∨ !isResponseId responseId ∨ !nonempty model ∨
        256 < model.length ∨ !isDigest v.scopeDigest ∨ !isDigest v.outputDigest ∨
        !(Usage.mk input output total).valid then .error unverified
    else .ok ⟨responseId, model, v.scopeDigest, v.outputDigest, ⟨input, output, total⟩⟩
  | _, _, _ => .error unverified

def Binding.valid (b : Binding) : Bool :=
  [b.id, b.provider, b.requester, b.fingerprint].all nonempty

def invalidBinding : Fault := ⟨400, "invalid_effect_receipt_binding"⟩

/-- The document is that of the binding. -/
def owner (b : Binding) (row : Option EffectRecord) : Except Fault EffectRecord :=
  if !b.valid then .error invalidBinding
  else
    match row with
    | none => .error ⟨503, "effect_receipt_record_invalid"⟩
    | some row =>
      if row.logicalId ≠ b.id then .error ⟨503, "effect_receipt_record_invalid"⟩
      else if row.provider ≠ b.provider ∨ row.requester ≠ b.requester ∨
          row.fingerprint ≠ b.fingerprint then .error identityConflict
      else .ok row

/-- A status under which a receipt may be stored or used. -/
def receivable (s : EffectStatus) : Bool := s ∈ [.started, .unknown, .completed]

section
variable (sha : JsString → JsString)

/-- `executionCorrelation`, for fields that are in order. -/
def executionCorrelation (b : Binding) (token scopeDigest : JsString) : JsString :=
  sha (array ([js "TRUYN/G5/CORRELATION/1", b.id, b.requester, b.provider, b.fingerprint, token,
    scopeDigest].map quote))

def bindingFor (need : Need) : Except Fault Binding :=
  if need.chain ∨ !nonempty need.id ∨ !nonempty need.requester ∨ !nonempty need.nodeId then
    .error ⟨400, "direct_effect_receipt_identity_required"⟩
  else .ok ⟨need.id, need.nodeId, need.requester,
    sha (array [quote need.id, quote need.requester, need.payload])⟩

/-- The partition of an effect. -/
def effectKey (id : JsString) : JsString := js "effect-" ++ sha id

/-! ### The ledger -/

def unavailable : Fault := ⟨503, "lifecycle_ledger_unavailable"⟩

def capacityReached : Fault := ⟨503, "lifecycle_document_capacity_reached"⟩

def getEffect (id : JsString) : EffectAct (Option EffectRecord) :=
  if !nonempty id then Act.throw ⟨400, "invalid_lifecycle_id"⟩
  else do
    match ← Act.get unavailable (effectKey sha id) with
    | none => pure none
    | some (_, doc) =>
      if doc.logicalId ≠ id then Act.throw ⟨503, "lifecycle_ledger_invalid_response"⟩
      else pure (some doc)

def beginEffect (h : Host) (c : Intent) : EffectAct Bool :=
  if !([c.id, c.requester, c.provider, c.fingerprint].all nonempty) then
    Act.throw ⟨400, "invalid_effect_intent"⟩
  else do
    let o ← Act.ask
    let doc : EffectRecord := { c.effect o.now with
      logicalId := c.id, version := 1, receiptExecution := none, effectReceipt := none,
      receiptCapturedAt := none }
    if h.maxDocumentBytes < h.bytes doc + 128 then Act.throw capacityReached
    else do
      Act.check o.capacity
      if ← Act.put unavailable (effectKey sha c.id) 0 doc then pure true
      else do
        match ← getEffect sha c.id with
        | none => Act.throw unavailable
        | some existing =>
          if c.matches existing.requester existing.provider existing.fingerprint then pure false
          else Act.throw identityConflict

/-- One round of `finishEffect`. -/
def finishUpdate (h : Host) (c : Finish) (o : Outside) (doc : EffectRecord) :
    Except Fault (Option EffectRecord) :=
  if doc.logicalId ≠ c.id then .error ⟨503, "lifecycle_ledger_invalid_response"⟩
  else
    match finish c o.now doc.toEffect with
    | .error f => .error f
    | .ok none => .ok none
    | .ok (some e) =>
      let next : EffectRecord := { doc with toEffect := e, version := doc.version + 1 }
      if h.maxDocumentBytes < h.bytes next + 128 then .error capacityReached else .ok (some next)

def finishEffect (h : Host) (c : Finish) : EffectAct Bool :=
  if invalidOutcome c.outcome then Act.throw ⟨400, "invalid_effect_outcome"⟩
  else if invalidMeter c then Act.throw ⟨400, "invalid_effect_meter"⟩
  else if !nonempty c.id then Act.throw ⟨400, "invalid_lifecycle_id"⟩
  else do
    let r ← Act.mutate ⟨unavailable, unavailable, ⟨404, "lifecycle_not_found"⟩,
      ⟨503, "lifecycle_cas_contention"⟩⟩ (effectKey sha c.id) (finishUpdate h c) h.maxCasAttempts
    pure r.1

/-! ### withCosmosEffectReceipts -/

/-- One round of the receipts' `mutate`. -/
def receiptUpdate (h : Host) (b : Binding)
    (update : Time → EffectRecord → Except Fault (Option EffectRecord)) (o : Outside)
    (doc : EffectRecord) : Except Fault (Option EffectRecord) :=
  if doc.logicalId ≠ b.id then .error ⟨503, "lifecycle_ledger_invalid_response"⟩
  else
    match owner b (some doc) with
    | .error f => .error f
    | .ok row =>
      if row.version < 1 ∨ 9007199254740991 ≤ row.version then
        .error ⟨503, "effect_receipt_record_invalid"⟩
      else
        match update o.now row with
        | .error f => .error f
        | .ok none => .ok none
        | .ok (some next) =>
          let next := { next with version := row.version + 1 }
          if 850000 < h.bytes next + 256 then .error capacityReached else .ok (some next)

def receiptMutate (h : Host) (b : Binding)
    (update : Time → EffectRecord → Except Fault (Option EffectRecord)) :
    EffectAct (Bool × EffectRecord) :=
  if !b.valid then Act.throw invalidBinding
  else Act.mutate ⟨unavailable, ⟨503, "effect_receipt_store_unavailable"⟩,
    ⟨409, "effect_intent_required"⟩, ⟨503, "effect_receipt_cas_contention"⟩⟩ (effectKey sha b.id)
    (receiptUpdate h b update) 5

def claimUpdate (h : Host) (b : Binding) (scopeDigest : Option JsString) (token : JsString)
    (now : Time) (row : EffectRecord) : Except Fault (Option EffectRecord) :=
  if row.status ≠ .started ∨ row.receiptExecution.isSome ∨ row.effectReceipt.isSome then
    .error ⟨409, "effect_execution_already_claimed"⟩
  else if 850000 < h.bytes row + 4096 then .error capacityReached
  else .ok (some { row with
    receiptExecution := some (Claim.mk token now scopeDigest
      (scopeDigest.map (executionCorrelation sha b token))) })

/-- Take the effect for one execution; nobody else gets it after that. -/
def claimReceiptExecution (h : Host) (b : Binding) (scopeDigest : Option JsString) :
    EffectAct Claim :=
  if scopeDigest.any fun d => !isDigest d then Act.throw ⟨400, "g5_correlation_binding_invalid"⟩
  else do
    let o ← Act.ask
    let result ← receiptMutate sha h b (claimUpdate sha h b scopeDigest o.randomUUID)
    match result.2.receiptExecution with
    | some c => pure c
    | none => Act.throw ⟨503, "effect_receipt_store_unverified"⟩

def captureUpdate (token : JsString) (normalized : Receipt) (now : Time) (row : EffectRecord) :
    Except Fault (Option EffectRecord) :=
  match row.receiptExecution with
  | none => .error ⟨409, "effect_execution_token_mismatch"⟩
  | some c =>
    if c.token ≠ token then .error ⟨409, "effect_execution_token_mismatch"⟩
    else if c.scopeDigest.any fun d => d ≠ normalized.scopeDigest then
      .error ⟨409, "effect_receipt_scope_mismatch"⟩
    else if !receivable row.status then .error ⟨409, "effect_receipt_terminal_conflict"⟩
    else
      match row.effectReceipt with
      | some r => if r ≠ normalized then .error ⟨409, "effect_receipt_conflict"⟩ else .ok none
      | none => .ok (some { row with
          effectReceipt := some normalized, receiptCapturedAt := some now })

/-- Store the receipt of a claimed execution, once. -/
def captureEffectReceipt (h : Host) (b : Binding) (token : JsString) (value : ReceiptValue) :
    EffectAct Unit := do
  let normalized ← Act.check (receipt value)
  if !nonempty token then Act.throw ⟨400, "effect_execution_token_required"⟩
  else do
    let _ ← receiptMutate sha h b (captureUpdate token normalized)
    Act.emit (.captured (effectKey sha b.id) token)

/-! ### wrapRuntimeG5ReceiptAdapter -/

def cancelled : Fault := ⟨409, "effect_execution_cancelled"⟩

def mismatch : Fault := ⟨409, "g5_independent_receipt_mismatch"⟩

/-- The adapter's answer is a stored, completed response, under the correlation it was given. -/
def Executed.output? (h : Host) (c : Claim) (r : Executed) : Except Fault JsString :=
  if h.correlated ∧ (r.correlation ≠ c.correlationId.map fun i => (i, h.scopeDigest)) then
    .error mismatch
  else if r.provider ≠ js "azure-openai" ∨ !r.providerStoredResponse ∨
      r.providerResponseStatus ≠ js "completed" then .error unverified
  else
    match r.output with
    | none => .error unverified
    | some output => .ok output

/-- Claim, issue the paid POST, store the receipt. -/
def execute (h : Host) (need : Need) : EffectAct JsString := do
  let b ← Act.check (bindingFor sha need)
  if (← Act.ask).aborted then Act.throw cancelled
  else do
    let c ← claimReceiptExecution sha h b (if h.correlated then some h.scopeDigest else none)
    Act.emit (.claimed (effectKey sha b.id) c.token)
    if (← Act.ask).aborted then Act.throw cancelled
    else do
      Act.emit (.post (effectKey sha b.id))
      let o ← Act.ask
      let r ← Act.check o.executed
      let output ← Act.check (r.output? h c)
      captureEffectReceipt sha h b c.token
        ⟨js "azure-openai", r.providerRequestId, r.model, h.scopeDigest, sha output, r.usage⟩
      pure output

/-- What was read back from the provider has the stored receipt. -/
def Retrieved.output? (h : Host) (expected : Receipt) (r : Retrieved) : Except Fault JsString :=
  match r.output with
  | none => .error unverified
  | some output =>
    if !r.responseRetrievedByGet ∨ r.provider ≠ js "azure-openai" then .error unverified
    else
      match receipt ⟨r.provider, r.providerResponseId, r.providerModel, h.scopeDigest, sha output,
        r.usage⟩ with
      | .error f => .error f
      | .ok actual =>
        if actual ≠ expected then .error ⟨409, "effect_receipt_conflict"⟩ else .ok output

/-- The receipt of a document under which the effect may be read back. -/
def storedReceipt (h : Host) (row : EffectRecord) : Except Fault Receipt :=
  match row.effectReceipt with
  | none => .error ⟨409, "effect_receipt_unknown"⟩
  | some r =>
    if !receivable row.status then .error ⟨409, "effect_receipt_terminal_conflict"⟩
    else if r.scopeDigest ≠ h.scopeDigest then .error ⟨409, "effect_receipt_scope_mismatch"⟩
    else .ok r

/-- `owner(saved, binding)` after `if (!saved) throw`. -/
def intended (b : Binding) (saved : Option EffectRecord) : Except Fault EffectRecord :=
  if saved.isNone then .error ⟨409, "effect_intent_required"⟩ else owner b saved

def recoverStoredEffect (h : Host) (need : Need) : EffectAct JsString := do
  let b ← Act.check (bindingFor sha need)
  let saved ← getEffect sha b.id
  let row ← Act.check (intended b saved)
  let expected ← Act.check (storedReceipt h row)
  let o ← Act.ask
  let read ← Act.check o.retrieved
  let output ← Act.check (read.output? sha h expected)
  let latest ← getEffect sha b.id
  let last ← Act.check (owner b latest)
  if !receivable last.status ∨ last.effectReceipt ≠ some expected then
    Act.throw ⟨409, "effect_receipt_conflict"⟩
  else pure output

/-- `validateRow`: the document is that of the binding, and its claim has the correlation. -/
def validateRow (h : Host) (b : Binding) (row : Option EffectRecord) :
    Except Fault (EffectRecord × Claim) :=
  match row with
  | none => .error ⟨409, "g5_effect_binding_mismatch"⟩
  | some row =>
    if row.logicalId ≠ b.id ∨ row.provider ≠ b.provider ∨ row.requester ≠ b.requester ∨
        row.fingerprint ≠ b.fingerprint then .error ⟨409, "g5_effect_binding_mismatch"⟩
    else if !receivable row.status then .error ⟨409, "g5_effect_terminal_conflict"⟩
    else
      match row.receiptExecution with
      | none => .error ⟨409, "g5_effect_has_no_precommitted_correlation"⟩
      | some c =>
        if c.token = [] ∨ c.scopeDigest ≠ some h.scopeDigest ∨
            c.correlationId ≠ some (executionCorrelation sha b c.token h.scopeDigest) then
          .error ⟨409, "g5_effect_has_no_precommitted_correlation"⟩
        else .ok (row, c)

/-- A claim without a receipt. -/
def unknownClaim (r : EffectRecord × Claim) : Except Fault Claim :=
  if r.1.effectReceipt.isSome then .error ⟨409, "g5_use_known_receipt_recovery"⟩ else .ok r.2

/-- What was read back from the provider is what the witness saw, under the claim's correlation. -/
def Retrieved.witnessed? (h : Host) (c : Claim) (expected : Witnessed) (r : Retrieved) :
    Except Fault JsString :=
  match r.output with
  | none => .error mismatch
  | some output =>
    if !r.responseRetrievedByGet ∨ r.provider ≠ js "azure-openai" ∨
        r.providerResponseId ≠ some expected.responseId ∨ r.providerModel ≠ some expected.model ∨
        sha output ≠ expected.outputDigest ∨
        (r.correlation ≠ c.correlationId.map fun i => (i, h.scopeDigest)) ∨
        r.usage ≠ some expected.usage then .error mismatch
    else .ok output

/-- The committed receipt is the witnessed one. -/
def confirms (h : Host) (expected : Witnessed) (row : EffectRecord) : Bool :=
  row.effectReceipt.any fun r => r.responseId = expected.responseId ∧ r.model = expected.model ∧
    r.outputDigest = expected.outputDigest ∧ r.scopeDigest = h.scopeDigest ∧
    expected.usage = ⟨some r.usage.input_tokens, some r.usage.output_tokens,
      some r.usage.total_tokens⟩

def recoverUnknownEffect (h : Host) (need : Need) : EffectAct JsString :=
  if !h.correlated then Act.throw ⟨503, "g5_independent_witness_configuration_required"⟩
  else do
    let b ← Act.check (bindingFor sha need)
    let saved ← getEffect sha b.id
    let row ← Act.check (validateRow sha h b saved)
    let claim ← Act.check (unknownClaim row)
    let o ← Act.ask
    let expected ← Act.check o.witnessed
    let o ← Act.ask
    let read ← Act.check o.retrieved
    let output ← Act.check (read.witnessed? sha h claim expected)
    let latest ← getEffect sha b.id
    let last ← Act.check (validateRow sha h b latest)
    if last.2.token ≠ claim.token then Act.throw ⟨409, "g5_witness_binding_mismatch"⟩
    else do
      if (← Act.ask).aborted then Act.throw ⟨409, "g5_witness_aborted"⟩
      else do
        captureEffectReceipt sha h b claim.token ⟨js "azure-openai", some expected.responseId,
          some expected.model, h.scopeDigest, expected.outputDigest, some expected.usage⟩
        let committed ← getEffect sha b.id
        let final ← Act.check (validateRow sha h b committed)
        if !confirms h expected final.1 then Act.throw mismatch else pure output

/-! ### Calls -/

inductive EffectRequest
  | beginEffect (h : Host) (c : Intent)
  | finishEffect (h : Host) (c : Finish)
  | execute (h : Host) (need : Need)
  | recoverStoredEffect (h : Host) (need : Need)
  | recoverUnknownEffect (h : Host) (need : Need)

/-- What a call comes to: whether it took or changed the effect, or the effect's output. -/
inductive EffectReply
  | begun (acquired : Bool)
  | finished (changed : Bool)
  | returned (output : JsString)

def program : EffectRequest → EffectAct EffectReply
  | .beginEffect h c => do pure (.begun (← beginEffect sha h c))
  | .finishEffect h c => do pure (.finished (← finishEffect sha h c))
  | .execute h need => do pure (.returned (← execute sha h need))
  | .recoverStoredEffect h need => do pure (.returned (← recoverStoredEffect sha h need))
  | .recoverUnknownEffect h need => do pure (.returned (← recoverUnknownEffect sha h need))

/-- The effect that an executing or recovering call is about. -/
def EffectRequest.effect : EffectRequest → JsString
  | .beginEffect _ c => effectKey sha c.id
  | .finishEffect _ c => effectKey sha c.id
  | .execute _ need => effectKey sha need.id
  | .recoverStoredEffect _ need => effectKey sha need.id
  | .recoverUnknownEffect _ need => effectKey sha need.id

end

end Truyn.Paid
