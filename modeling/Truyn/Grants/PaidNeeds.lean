import Truyn.Ledger.Outbox
import Truyn.Paid.Receipts
import Truyn.Schemes.Causes

/-! grants:paid-needs | from the relay's grant to the provider's paid call

    A relay that enforces paid NEEDs asks a durable authority whether the requester may spend the
    provider's quota, and reserves the NEED in the shared ledger together with that authorization. A
    provider that requires it reads the record before it starts work, and again right before it calls
    its adapter.

    The ledger's service executes each write at one instant, and its reads are current. What relay,
    authority and provider hear from elsewhere (signatures, sessions, offers, access and billing
    policies, abort signals, clocks) is what `Act.ask` returns, and may be anything. -/

namespace Truyn.Grants
open Ledger Ledger.Cosmos Ledger.Outbox Programs

structure Decision where
  ok : Bool
  mode : JsString
  grantId : Option JsString

structure ProviderPolicy where
  status : JsString
  mode : JsString

/-- The authority over providers' grants, as it answers at one moment; it throws where it gives
    `none`. -/
structure Authority where
  durable : Bool
  authorize : JsString → JsString → JsString → Option Decision
  getProviderPolicy : JsString → Option (Option ProviderPolicy)
  revision : Option ℤ

/-- The policy of an offer. -/
structure OfferPolicy where
  providerNodeId : JsString
  providerGrantAuthority : Option Authority

/-- The offer a NEED is matched with; `policyText` is the JSON text of both policies. -/
structure Match where
  provider : JsString
  policy : OfferPolicy
  policyText : JsString

/-- A signed NEED: `capability` is `none` where it is no string or empty, `text` is the JSON text of
    the envelope, or of frame and payload, and `event` that of the event that carries it on. -/
structure NeedMessage where
  fast : Bool
  id : JsString
  sender : JsString
  capability : Option JsString
  text : JsString
  event : JsString

/-- What `normalizeEvent` makes of an event. -/
structure Presented where
  id : JsString
  sender : JsString
  capability : Option JsString
  chain : Bool
  paidFingerprint : Option JsString
  deriving DecidableEq

/-- An event that reaches the provider, however it got there: a NEED, which may say that it is of a
    chain, or a stage of one. -/
inductive ProviderEvent
  | need (verified compact chain : Bool) (m : NeedMessage)
  | chainStage (ready : Bool) (id sender : JsString) (capability : Option JsString)
  | other

structure ProviderHost where
  nodeId : JsString
  capabilities : List JsString
  requirePaidNeedLedger : Bool
  sharedLedger : Bool
  effectLedger : Bool
  billingPolicy : Bool

/-- An answer of the world outside; each question looks at its own field. -/
structure Outside where
  clock : Clock
  refused : Except Fault Unit
  capacity : Except Fault Unit
  matching : Except Fault (Option Match)
  access : Bool
  acquired : Except Fault Bool
  billing : Except Fault Bool
  materialized : Except Fault Unit
  aborted : Bool

/-- The NEED a grant is for. -/
structure Grant where
  id : JsString
  requester : JsString
  provider : JsString
  capability : JsString
  fingerprint : JsString

/-- What a call is seen to do: the relay was granted its NEED by the authority of an offer's policy;
    the provider starts its adapter for its NEED, having read the record's version `tag`. -/
inductive Deed
  | granted (policy : OfferPolicy) (g : Grant)
  | execute (tag : ℕ)

abbrev NeedAct := Act JsString StoredNeed Outside Deed Fault

def unavailable : Fault := ⟨503, "lifecycle_ledger_unavailable"⟩

def unverified : Fault := ⟨403, "paid_need_unverified"⟩

/-! ### The relay's authority -/

def paidModes : List JsString := [js "self", js "private", js "shared"]

/-- The authorization to be reserved with a NEED, and the id of the grant. -/
def authorizePaidNeedAtRelay (policy : OfferPolicy) (requesterNodeId capability : JsString) :
    Except Fault (PaidAuthorization × Option JsString) :=
  match policy.providerGrantAuthority with
  | none => .error ⟨403, "paid_need_authority_required"⟩
  | some authority =>
    if !nonempty policy.providerNodeId ∨ !nonempty requesterNodeId ∨ !nonempty capability ∨
        !authority.durable then .error ⟨403, "paid_need_authority_required"⟩
    else
      match authority.authorize policy.providerNodeId requesterNodeId capability,
        authority.getProviderPolicy policy.providerNodeId with
      | some decision, some (some providerPolicy) =>
        if !decision.ok ∨ providerPolicy.status ≠ js "active" ∨ decision.mode ∉ paidModes ∨
            providerPolicy.mode ≠ decision.mode ∨
            (decision.mode = js "shared" ∧ !decision.grantId.any nonempty) then
          .error ⟨403, "paid_need_denied"⟩
        else if !authority.revision.any fun r => isSafeInteger r ∧ 0 ≤ r then
          .error ⟨503, "paid_need_authority_unconfirmed"⟩
        else .ok (⟨js "truyn.paid.need/1", js "authorized", requesterNodeId, policy.providerNodeId,
          capability, policy.providerNodeId, js "provider-owner", authority.revision.getD 0⟩,
          decision.grantId.filter nonempty)
      | some _, some none => .error ⟨403, "paid_need_denied"⟩
      | _, _ => .error ⟨503, "paid_need_authority_unavailable"⟩

/-- The JSON text of an authorization. -/
def paidText : Option (PaidAuthorization × Option JsString) → JsString
  | none => js "null"
  | some (p, grantId) => object [(js "contract", quote p.contract), (js "status", quote p.status),
      (js "requesterNodeId", quote p.requesterNodeId),
      (js "providerNodeId", quote p.providerNodeId), (js "capability", quote p.capability),
      (js "payerNodeId", quote p.payerNodeId),
      (js "billingResponsibility", quote p.billingResponsibility),
      (js "authorityRevision", decimal (some p.authorityRevision)),
      (js "grantId", (grantId.map quote).getD (js "null"))]

/-! ### The ledger -/

/-- A NEED's record, with its tag. -/
def getNeed (id : JsString) : NeedAct (Option (ℕ × StoredNeed)) :=
  if !validNeedId id then Act.throw ⟨400, "invalid_lifecycle_id"⟩
  else do
    match ← Act.get unavailable id with
    | none => pure none
    | some (tag, record) =>
      if record.logicalId ≠ id then Act.throw ⟨503, "lifecycle_ledger_invalid_response"⟩
      else pure (some (tag, record))

/-- A call that writes a NEED's document. -/
def write (L : Limits) (r : Request) : NeedAct Bool := do
  let o ← Act.ask
  match plan L r o.clock with
  | .error f => Act.throw f
  | .ok (some doc) =>
    Act.check o.capacity
    if ← Act.put unavailable (key r) 0 doc then pure true
    else Act.throw ⟨409, "duplicate_request"⟩
  | .ok none =>
    let result ← Act.mutate ⟨unavailable, unavailable, ⟨404, "lifecycle_not_found"⟩,
      ⟨503, "lifecycle_cas_contention"⟩⟩ (key r) (fun o doc => edit L r o.clock doc) L.maxCasAttempts
    pure result.1

/-- A reservation by anybody but a relay has no paid authorization. -/
def unpaid : Request → Request
  | .ledger (.reserveNeed c) _ => .ledger (.reserveNeed { c with paidAuthorization := none })
      (js "null")
  | r => r

section
variable (sha : JsString → JsString)

/-! ### The relay -/

/-- What the relay reserves of a NEED. -/
def reservation (m : NeedMessage) (capability : JsString) (found : Match)
    (paid : Option (PaidAuthorization × Option JsString)) : Reservation where
  id := m.id
  requester := m.sender
  provider := found.provider
  fingerprint := sha m.text
  capability := capability
  mode := if m.fast then js "fast" else js "legacy"
  scope := m.sender
  policyDigest := sha found.policyText
  paidAuthorization := paid.map Prod.fst
  delivery := some ⟨found.provider, .NEED, some ⟨.NEED, none, none, m.event⟩⟩

def paidGrant (paidNeedEnforcement : Bool) (m : NeedMessage) (capability : JsString)
    (found : Match) : NeedAct (Option (PaidAuthorization × Option JsString)) :=
  if !paidNeedEnforcement then pure none
  else do
    let paid ← Act.check (authorizePaidNeedAtRelay found.policy m.sender capability)
    Act.emit (.granted found.policy
      ⟨m.id, m.sender, found.policy.providerNodeId, capability, sha m.text⟩)
    pure (some paid)

/-- `POST /v1/needs` and `POST /v1/fast/needs`. -/
def relayNeed (L : Limits) (paidNeedEnforcement : Bool) (m : NeedMessage) : NeedAct Bool := do
  let o ← Act.ask
  Act.check o.refused
  match ← getNeed m.id with
  | some _ => Act.throw ⟨409, "duplicate_request"⟩
  | none =>
    match m.capability with
    | none => Act.throw ⟨400, "invalid_capability"⟩
    | some capability =>
      let o ← Act.ask
      match ← Act.check o.matching with
      | none => Act.throw (if paidNeedEnforcement then ⟨403, "paid_need_denied"⟩
        else ⟨404, "no_matching_provider"⟩)
      | some found =>
        let paid ← paidGrant sha paidNeedEnforcement m capability found
        let o ← Act.ask
        Act.check o.refused
        write L (.ledger (.reserveNeed (reservation sha m capability found paid)) (paidText paid))

/-! ### The provider -/

def normalizeEvent : ProviderEvent → Option Presented
  | .need verified compact chain m =>
    if !verified then none
    else some ⟨m.id, m.sender, m.capability, !compact && chain, some (sha m.text)⟩
  | .chainStage ready id sender capability =>
    if !ready then none else some ⟨id, sender, capability, true, none⟩
  | .other => none

def maxAgeMs : ℕ := 15 * 60 * 1000

/-- The record is of this very NEED, matched, and paid for by this provider's owner. -/
def accepts (providerNodeId : JsString) (need : Presented) (record : StoredNeed) : Bool :=
  record.status = .matched ∧ record.requester = need.sender ∧ record.provider = providerNodeId ∧
    some record.capability = need.capability ∧ need.paidFingerprint.any Paid.isDigest ∧
    some record.fingerprint = need.paidFingerprint ∧
    record.paidAuthorization.any fun a =>
      a.contract = js "truyn.paid.need/1" ∧ a.status = js "authorized" ∧
        a.requesterNodeId = need.sender ∧ a.providerNodeId = providerNodeId ∧
        some a.capability = need.capability ∧ a.payerNodeId = providerNodeId ∧
        a.billingResponsibility = js "provider-owner" ∧ isSafeInteger a.authorityRevision ∧
        0 ≤ a.authorityRevision

/-- `catch { throw fault(503, 'paid_need_ledger_unavailable'); }`. -/
def recordOf (id : JsString) : NeedAct (Option (ℕ × StoredNeed)) :=
  Act.catching (getNeed id) fun _ => Act.throw ⟨503, "paid_need_ledger_unavailable"⟩

/-- The tag of the record that admits the NEED. -/
def verifyPaidNeedAtProvider (h : ProviderHost) (need : Presented) : NeedAct ℕ :=
  if !h.sharedLedger then Act.throw ⟨503, "paid_need_shared_ledger_required"⟩
  else if !nonempty need.id ∨ !nonempty need.sender ∨ !nonempty h.nodeId ∨ need.chain then
    Act.throw unverified
  else do
    match ← recordOf need.id with
    | none => Act.throw unverified
    | some (tag, record) =>
      if !accepts h.nodeId need record then Act.throw unverified
      else do
        let o ← Act.ask
        if o.clock.time < record.createdAt ∨ maxAgeMs < o.clock.time - record.createdAt then
          Act.throw ⟨403, "paid_need_authorization_expired"⟩
        else pure tag

/-- `if (this.requirePaidNeedLedger) await verifyPaidNeedAtProvider(...)`. -/
def verifyRequired (h : ProviderHost) (need : Presented) : NeedAct ℕ :=
  if !h.requirePaidNeedLedger then pure 0 else verifyPaidNeedAtProvider h need

/-- `beginEffect`, where there is a ledger for it and the NEED is of no chain. -/
def takeEffect (h : ProviderHost) (need : Presented) : NeedAct Bool :=
  if !h.effectLedger ∨ need.chain then pure true
  else do
    let o ← Act.ask
    Act.check o.acquired

def authorizeBilling (h : ProviderHost) : NeedAct Bool :=
  if !h.billingPolicy then pure true
  else do
    let o ← Act.ask
    Act.check o.billing

/-- The end of `executeNeed`: the input is there, the record is read again, the adapter starts. -/
def startAdapter (h : ProviderHost) (need : Presented) : NeedAct Bool := do
  let o ← Act.ask
  Act.check o.materialized
  if (← Act.ask).aborted then pure false
  else do
    let tag ← verifyRequired h need
    Act.emit (.execute tag)
    pure true

/-- What the provider does up to the start of its adapter, and whether it starts it. -/
def executeNeed (h : ProviderHost) (need : Presented) : NeedAct Bool :=
  if !need.capability.any fun c => c ∈ h.capabilities then pure false
  else do
    if !(← Act.ask).access then pure false
    else do
      let _ ← verifyRequired h need
      if !(← takeEffect h need) then pure false
      else do
        if !(← authorizeBilling h) then pure false
        else do
          if (← Act.ask).aborted then pure false
          else startAdapter h need

/-! ### Calls -/

inductive NeedRequest
  | relay (L : Limits) (paidNeedEnforcement : Bool) (m : NeedMessage)
  | ledger (L : Limits) (r : Request)
  | provider (h : ProviderHost) (e : ProviderEvent)

def program : NeedRequest → NeedAct Bool
  | .relay L paidNeedEnforcement m => relayNeed sha L paidNeedEnforcement m
  | .ledger L r => write L (unpaid r)
  | .provider h e =>
    match normalizeEvent sha e with
    | none => pure false
    | some need => executeNeed h need

end

end Truyn.Grants
