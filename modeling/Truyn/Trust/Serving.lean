import Truyn.Context.Serving
import Truyn.Trust.Created

/-! trust:serving | what a claim attester answers, and how long hosts serve

    An attester refuses who is not on its list and claims that are invalid or of another domain. What
    its verifier throws, what no attestation is made of, and a send that throws, is caught and answered
    as a failure. Nothing else is: holder and attester serve just while no poll throws and each need can
    be answered (`hosts_serve`). -/

namespace Truyn.Serving
open Servers Context
open Trust (Claim Attestation Verdict)

/-- The options of `ClaimAttesterHost`. -/
structure Attester where
  identity : Trust.Identity
  domain : JsString
  requestCapability : JsString
  allowedRequesterIds : List JsString
  methods : List JsString

/-- What a verifier returns; an empty method is none. -/
structure Decision where
  verdict : Verdict
  evidence : List Trust.Evidence
  lineage : Trust.Lineage
  method : JsString
  rationaleDigest : Option JsString

/-- What happens while a need is handled: the verifier, `none` where it throws, the clock, and whether
    the result is sent, and that of a failure. -/
structure AttesterTurn where
  verifier : Claim → JsString → Option Decision
  now : JsString
  sent : Bool
  failureSent : Bool

variable (H : Trust.Host) (h : Attester)

/-- `envelope.payload?.input?.claim`, where it is the record of a claim. -/
def claimOf (envelope : Json) : Option Claim :=
  (((payloadField envelope "input").bind (Json.get (js "claim"))).bind H.ofJson).bind Claim.read

/-- What `verifyClaim` accepts, in the domain of the attester. -/
def acceptable (claim : Claim) : Bool :=
  match Trust.verifyClaim H.toPlatform claim with
  | .ok _ => decide (claim.body.domain = h.domain)
  | .error _ => false

/-- `decision?.method || this.methods[0] || 'independent-review'`. -/
def methodOf (method : JsString) : JsString :=
  if !method.isEmpty then method
  else match h.methods with
  | first :: _ => if !first.isEmpty then first else js "independent-review"
  | [] => js "independent-review"

/-- The attestation of an acceptable claim, unless something throws. -/
def attest (claim : Claim) (requesterId : JsString) (turn : AttesterTurn) : Option Attestation :=
  (turn.verifier claim requesterId).bind fun decision =>
    (Trust.createAttestation H.toPlatform h.identity claim ⟨decision.verdict, decision.evidence,
      decision.lineage, methodOf h decision.method, decision.rationaleDigest, turn.now⟩).toOption

/-- `ClaimAttesterHost.handleNeed`. -/
def attesterHandleNeed (p : Event × AttesterTurn) : List (Result Attestation) × Bool :=
  match p.1.need h.requestCapability with
  | none => ([], false)
  | some envelope =>
    let id := envelope.get (js "id")
    if !allows h.allowedRequesterIds envelope then
      send p.2.sent ⟨id, .error (js "CLAIM_VERIFIER_ACCESS_DENIED")⟩
    else match (claimOf H envelope).filter (acceptable H h) with
    | none => send p.2.sent ⟨id, .error (js "CLAIM_INVALID")⟩
    | some claim =>
      let requesterId := (asText (envelope.get (js "from"))).getD []
      match attest H h claim requesterId p.2, p.2.sent with
      | some attestation, true => send true ⟨id, .ok attestation⟩
      | _, _ => send p.2.failureSent ⟨id, .error (js "CLAIM_VERIFICATION_FAILED")⟩

/-- The claim that is attested for a need, where the requester may ask and the claim is valid. -/
def claimFor (envelope : Json) : Option Claim :=
  if allows h.allowedRequesterIds envelope then (claimOf H envelope).filter (acceptable H h) else none

/-- The verifier decides, and what it says can be attested. -/
def Attests (claim : Claim) (requesterId : JsString) (turn : AttesterTurn) : Prop :=
  Trust.requiredIdentity H.toPlatform h.identity "attester" = .ok () ∧
  ∃ decision, turn.verifier claim requesterId = some decision ∧
    decision.verdict ∈ [Verdict.support, .contradict, .uncertain] ∧
    (∃ method, Trust.normalizeText H.toPlatform (methodOf h decision.method) "attestation method" 256 =
      .ok method) ∧
    ∃ evidence, Trust.normalizeEvidence H.toPlatform decision.evidence = .ok evidence

/-- A result goes through: the only one there is, or that of an attestation or of a failure. -/
def AttesterCalm (p : Event × AttesterTurn) : Prop :=
  ∀ envelope, p.1.need h.requestCapability = some envelope →
    match claimFor H h envelope with
    | none => p.2.sent = true
    | some claim => p.2.failureSent = true ∨ p.2.sent = true ∧
        Attests H h claim ((asText (envelope.get (js "from"))).getD []) p.2

variable {H h}

theorem attest_isSome {claim : Claim} {requesterId : JsString} {turn : AttesterTurn}
    (hclaim : acceptable H h claim = true) :
    (attest H h claim requesterId turn).isSome = true ↔ Attests H h claim requesterId turn := by
  have hvalid : Trust.verifyClaim H.toPlatform claim = .ok () := by
    unfold acceptable at hclaim
    cases hverify : Trust.verifyClaim H.toPlatform claim with
    | ok u => rfl
    | error e =>
      rw [hverify] at hclaim
      cases hclaim
  constructor
  · intro hsome
    obtain ⟨a, ha⟩ := Option.isSome_iff_exists.mp hsome
    obtain ⟨decision, hdecision, hmade⟩ := Option.bind_eq_some_iff.mp ha
    obtain ⟨hidentity, -, hverdict, method, evidence, hmethod, hevidence, -⟩ :=
      Trust.createAttestation_ok.mp (Checks.toOption_eq_some.mp hmade)
    exact ⟨hidentity, decision, hdecision, hverdict, ⟨method, hmethod⟩, evidence, hevidence⟩
  · rintro ⟨hidentity, decision, hdecision, hverdict, ⟨method, hmethod⟩, evidence, hevidence⟩
    obtain ⟨a, ha⟩ := Trust.exists_createAttestation (i := ⟨decision.verdict, decision.evidence,
      decision.lineage, methodOf h decision.method, decision.rationaleDigest, turn.now⟩)
      method evidence hidentity hvalid hverdict hmethod hevidence
    rw [attest, hdecision, Option.bind_some, ha]
    rfl

theorem attesterHandleNeed_need (p : Event × AttesterTurn) (envelope : Json)
    (hneed : p.1.need h.requestCapability = some envelope) : (attesterHandleNeed H h p).2 = true ∨
    ∃ body, (attesterHandleNeed H h p).1 = [⟨envelope.get (js "id"), body⟩] ∧
      (allows h.allowedRequesterIds envelope = false →
        body = .error (js "CLAIM_VERIFIER_ACCESS_DENIED")) := by
  simp only [attesterHandleNeed, hneed]
  cases allows h.allowedRequesterIds envelope with
  | false => exact send_cases.imp_right fun hsent => ⟨_, hsent, fun _ => rfl⟩
  | true =>
    simp only [Bool.not_true, Bool.false_eq_true, if_false]
    cases (claimOf H envelope).filter (acceptable H h) with
    | none => exact send_cases.imp_right fun hsent => ⟨_, hsent, fun h => by cases h⟩
    | some claim =>
      dsimp only
      split <;> exact send_cases.imp_right fun hsent => ⟨_, hsent, fun h => by cases h⟩

theorem attesterHandleNeed_calm {p : Event × AttesterTurn} :
    (attesterHandleNeed H h p).2 = false ↔ AttesterCalm H h p := by
  unfold attesterHandleNeed AttesterCalm claimFor
  cases p.1.need h.requestCapability with
  | none => simp
  | some envelope =>
    simp only [Option.some.injEq, forall_eq']
    cases allows h.allowedRequesterIds envelope with
    | false => simp [send_throws]
    | true =>
      simp only [Bool.not_true, Bool.false_eq_true, if_false, if_true]
      cases hclaim : (claimOf H envelope).filter (acceptable H h) with
      | none => simp [send_throws]
      | some claim =>
        have haccepted := (Option.filter_eq_some_iff.mp hclaim).2
        dsimp only
        rw [← attest_isSome haccepted]
        cases attest H h claim ((asText (envelope.get (js "from"))).getD []) p.2 <;>
          cases p.2.sent <;> simp [send_throws]

def sampleHost : HolderHost where
  toPlatform := ⟨⟨unitsLe, unitsLe_trans, unitsLe_total⟩, id⟩
  nfkd s := s
  toLowerCase s := s
  isWord c := c ≠ [32]
  sign _ text := text
  verify _ _ _ := some true
  readNumber n := some (numeralValue n.text)

def sampleHolder : Holder where
  identity := ⟨js "holder", js "key"⟩
  rootCid := js "root"
  blocks := [⟨some (js "b"), some (js "cid"), some (js "that is why")⟩]
  partitionIndex := 0
  partitionCount := 1
  requestCapability := js "ask"
  allowedRequesterIds := [js "friend"]
  candidateK := 2
  candidateK_range := by decide

def foundBlock : Found := ⟨js "b", js "cid", js "that is why", none, none⟩

/-- A retrieval that finds a block, and a send that goes through. -/
def findingTurn : HolderTurn := ⟨fun _ _ _ => .ok [foundBlock], true⟩

def needEvent (requesterId : JsString) (input : Json) : Event :=
  ⟨true, some (.object [(js "type", .string (js "NEED")), (js "id", .string (js "need")),
    (js "from", .string requesterId), (js "payload", .object [(js "capability", .string (js "ask")),
      (js "input", input)])])⟩

/-- The question `why`, with a number of candidates or without one. -/
def whyInput (candidateK : List (JsString × Json)) : Json :=
  .object ([(js "rootCid", .string (js "root")), (js "query", .string (js "why")),
    (js "queryHash", .string (js "sha256:" ++ queryText (js "why")))] ++ candidateK)

def whyEvent : Event := needEvent (js "friend") (whyInput [])

/-- A friend asks for nine candidates, and then again for none. -/
def nineThenWhy : List (Option (List (Event × HolderTurn))) :=
  [some [(needEvent (js "friend") (whyInput [(js "candidateK", .number (.ofNat 9))]), findingTurn),
    (whyEvent, findingTurn)]]

theorem calm_why : HolderCalm sampleHost sampleHolder (whyEvent, findingTurn) := by
  intro envelope hneed
  have henvelope : whyEvent.envelope = some envelope := hneed
  cases henvelope
  refine ⟨rfl, fun _ _ query hquery _ => ?_⟩
  obtain rfl : js "why" = query := Option.some.inj hquery
  refine ⟨_, contextQueryHash_ok.mpr ⟨by decide, rfl, rfl⟩, fun _ => ⟨2, rfl, fun p hp => ?_⟩⟩
  obtain rfl := List.mem_singleton.mp hp
  exact ⟨⟨by decide, by decide⟩, by decide⟩

def sampleAttester : Attester :=
  ⟨Trust.issuer, Trust.plainClaim.body.domain, js "ask", [js "friend"], []⟩

def claimEvent : Event :=
  needEvent (js "friend") (.object [(js "claim", Trust.printer.json Trust.plainClaim.value)])

theorem claimFor_friend {H : Trust.Host} {v envelope : Json}
    (h : (needEvent (js "friend") (.object [(js "claim", v)])).envelope = some envelope) :
    claimFor H sampleAttester envelope =
      ((H.ofJson v).bind Claim.read).filter (acceptable H sampleAttester) := by
  cases h
  rfl

theorem calm_claim :
    AttesterCalm Trust.printer sampleAttester (claimEvent, ⟨fun _ _ => none, js "now", false, true⟩) := by
  intro envelope hneed
  have hclaim : claimFor Trust.printer sampleAttester envelope = some Trust.plainClaim := by
    rw [claimFor_friend hneed, Trust.ofJson_json Trust.plainRead_number, Option.bind_some,
      Trust.Claim.read_value]
    exact Option.filter_some_pos (by decide +kernel)
  rw [hclaim]
  exact .inl rfl

end Truyn.Serving
