import Truyn.Routing.Comparator
import Truyn.Schemes.Checks

/-! routing:selection | which providers a need may be dispatched to, best first

    `matchingOffers` filters the offers of a capability, asks the durable ledger about each that is
    left, in batches, and then ranks what the ledger confirms by what the relay knows after the last
    answer. While it waits the relay goes on, so the state and the time at the ranking are others
    than at the filter (`Wait`). -/

namespace Truyn.Routing
open Trust (Value truthy)

/-! ### The relay -/

structure HttpError where
  status : ℕ
  error : String
  deriving DecidableEq

inductive LedgerKind
  | cosmosMultiHost
  | other
  deriving DecidableEq

/-- The settings that the relay starts with, and what is taken from the host: `round` is the double
    nearest to a number that is not negative, where too large a number rounds to `Infinity`. -/
structure Host where
  localDevelopmentMode : Bool := false
  paidNeedEnforcement : Bool := false
  trustedRequesterNodeIds : List JsString := []
  nodeFreshnessMs : ℤ
  defaultProviderMaxInFlight : ℕ := 8
  selectionReservationMs : ℤ := 60000
  maxRequests : ℕ := 8192
  maxConcurrentOfferLedgerReads : ℕ := 8
  reads_pos : 0 < maxConcurrentOfferLedgerReads := by decide
  lifecycleLedger : Option LedgerKind := none
  sha256 : JsString → JsString
  round : ℚ → WithTop ℚ

structure Reservation where
  provider : JsString
  expiresAt : ℤ

/-- What of the state of a relay a selection reads. -/
structure State where
  directory : Directory := {}
  lastSeenAt : List (JsString × ℤ) := []
  openSockets : List JsString := []
  socketLostAt : List (JsString × ℤ) := []
  providerCooldownUntil : List (JsString × ℤ) := []
  inFlightByProvider : List (JsString × ℕ) := []
  selectionReservations : List (JsString × Reservation) := []
  requests : List JsString := []

variable (H : Host)

def connectedSocket (s : State) (nodeId : JsString) : Bool := nodeId ∈ s.openSockets

def nodeSeenAtMs (s : State) (nodeId : JsString) : ℤ := (Maps.get s.lastSeenAt nodeId).getD 0

def isNodeFresh (s : State) (nodeId : JsString) (now : ℤ) : Bool :=
  connectedSocket s nodeId ∨
    (0 < nodeSeenAtMs s nodeId ∧ now - nodeSeenAtMs s nodeId ≤ H.nodeFreshnessMs)

/-! ### The ledger -/

/-- What the ledger holds of an offer. -/
structure Durable where
  owner : JsString
  fingerprint : JsString
  revoked : Bool

def durableOfferMatches (offer : Offer) (durable : Option Durable) : Except HttpError Bool :=
  match H.lifecycleLedger, durable with
  | none, _ => .ok true
  | some kind, none => .ok (kind ≠ .cosmosMultiHost)
  | some _, some durable =>
    if durable.owner ≠ offer.envelope.sender ∨
        durable.fingerprint ≠ H.sha256 offer.envelope.json then
      .error ⟨503, "lifecycle_offer_integrity_mismatch"⟩
    else .ok !durable.revoked

/-- `lifecycleLedger?.getOffer(id)`: no answer without a ledger. -/
def readOffer (getOffer : JsString → Except HttpError (Option Durable)) (offer : Offer) :
    Except HttpError (Option Durable) :=
  if H.lifecycleLedger = none then .ok none else getOffer offer.envelope.id

def keepMatching : List (Offer × Option Durable) → Except HttpError (List Offer)
  | [] => .ok []
  | (offer, saved) :: batch => do
    let matched ← durableOfferMatches H offer saved
    let rest ← keepMatching batch
    return if matched then offer :: rest else rest

/-- One batch: all are read before the first answer is looked at. -/
def confirmBatch (getOffer : JsString → Except HttpError (Option Durable)) (batch : List Offer) :
    Except HttpError (List Offer) := do
  let saved ← batch.mapM (readOffer H getOffer)
  keepMatching H (batch.zip saved)

/-- The loop over the batches; `fuel` is as long as the list. -/
def confirm (getOffer : JsString → Except HttpError (Option Durable)) :
    ℕ → List Offer → Except HttpError (List Offer)
  | 0, _ => .ok []
  | _ + 1, [] => .ok []
  | fuel + 1, offer :: candidates => do
    let batch := (offer :: candidates).take H.maxConcurrentOfferLedgerReads
    let eligible ← confirmBatch H getOffer batch
    let rest ← confirm getOffer fuel ((offer :: candidates).drop H.maxConcurrentOfferLedgerReads)
    return eligible ++ rest

/-! ### Ranking -/

structure Settings where
  mode : Mode
  ratio : ℚ
  ceiling : Option ℚ

/-- `value == null`. -/
def nullish : Option Value → Bool
  | none => true
  | some .null => true
  | _ => false

/-- `a ?? b`. -/
def coalesce (a b : Option Value) : Option Value := if nullish a then b else a

def nonnegativeFiniteNumber : Option Value → Option ℚ
  | some (.number x) => if 0 ≤ x then some x else none
  | _ => none

def readMode (routing : Value) : Except HttpError Mode :=
  let given := coalesce (routing.get "mode") (routing.get "strategy")
  match coalesce given (some (.string (js "cost"))) with
  | some (.string s) =>
    if s = js "cost" then .ok .cost
    else if s = js "latency" then .ok .latency
    else .error ⟨400, "invalid_routing_mode"⟩
  | _ => .error ⟨400, "invalid_routing_mode"⟩

def readRatio (routing : Value) : Except HttpError ℚ :=
  let given := routing.get "expectedOutputRatio"
  if nullish given then .ok (1 / 4)
  else
    match nonnegativeFiniteNumber given with
    | none => .error ⟨400, "invalid_expected_output_ratio"⟩
    | some ratio =>
      if 100 < ratio then .error ⟨400, "invalid_expected_output_ratio"⟩ else .ok ratio

def readCeiling (routing : Value) : Except HttpError (Option ℚ) :=
  let given := routing.get "maxUnitCostUsdPerMTok"
  if nullish given then .ok none
  else
    match nonnegativeFiniteNumber given with
    | none => .error ⟨400, "invalid_max_unit_cost"⟩
    | some ceiling => .ok (some ceiling)

def routingSettings : Option Value → Except HttpError Settings
  | none => .ok ⟨.cost, 1 / 4, none⟩
  | some .null => .ok ⟨.cost, 1 / 4, none⟩
  | some (.object members) => do
    let mode ← readMode (.object members)
    let ratio ← readRatio (.object members)
    let ceiling ← readCeiling (.object members)
    return ⟨mode, ratio, ceiling⟩
  | some _ => .error ⟨400, "invalid_routing_policy"⟩

/-- `offer.envelope.payload?.metadata || {}`. -/
def metadata (offer : Offer) : Value :=
  let given := offer.envelope.payload.get "metadata"
  if truthy given then given.getD (.object []) else .object []

def offerUnitCost (offer : Offer) (ratio : ℚ) : WithTop ℚ :=
  let pricing := coalesce ((metadata offer).get "pricing") (offer.envelope.payload.get "pricing")
  match nonnegativeFiniteNumber (pricing.bind (Value.get "inputUsdPerMTok")),
    nonnegativeFiniteNumber (pricing.bind (Value.get "outputUsdPerMTok")) with
  | some input, some output => (H.round (output * ratio)).bind fun part => H.round (input + part)
  | _, _ => ⊤

/-- `Number.isSafeInteger(cap) && cap > 0 ? cap : defaultProviderMaxInFlight`. -/
def offerCapacity (offer : Offer) : ℕ :=
  match coalesce (((metadata offer).get "capacity").bind (Value.get "maxInFlight"))
    ((offer.envelope.payload.get "capacity").bind (Value.get "maxInFlight")) with
  | some (.number cap) =>
    if cap.den = 1 ∧ 0 < cap ∧ cap < 2 ^ 53 then cap.num.toNat else H.defaultProviderMaxInFlight
  | _ => H.defaultProviderMaxInFlight

/-- The reservations that the ranking leaves: they have not expired, and no request took them up. -/
def liveReservations (s : State) (now : ℤ) : List (JsString × Reservation) :=
  s.selectionReservations.filter fun r => ¬(r.2.expiresAt ≤ now ∨ r.1 ∈ s.requests)

def loadOf (loads : List (JsString × ℕ)) (provider : JsString) : ℕ :=
  (Maps.get loads provider).getD 0

/-- The requests in flight and the reservations, by provider. -/
def currentLoads (s : State) (now : ℤ) : List (JsString × ℕ) :=
  (liveReservations s now).foldl
    (fun loads r => Maps.set r.2.provider (loadOf loads r.2.provider + 1) loads)
    s.inFlightByProvider

/-- What is looked at when an offer is ranked. -/
def assess (s : State) (now : ℤ) (ratio : ℚ) (offer : Offer) (tie : ℚ) : Ranked :=
  let provider := offer.envelope.sender
  let utilization := H.round (loadOf (currentLoads s now) provider / offerCapacity H offer)
  let cooling : Bool := now < (Maps.get s.providerCooldownUntil provider).getD 0
  { offer, cost := offerUnitCost H offer ratio, utilization
    saturated := 1 ≤ utilization ∨ cooling
    cooling
    degraded := (Maps.get s.socketLostAt provider).isSome ∧ ¬connectedSocket s provider
    tie }

/-- `!(ceiling != null && !(cost <= ceiling))`. -/
def withinCeiling (settings : Settings) (offer : Offer) : Bool :=
  match settings.ceiling with
  | none => true
  | some ceiling => offerUnitCost H offer settings.ratio ≤ ceiling

/-- `rankOffers(eligible, routing, now)`; `random i` is the `i`-th number of `Math.random`. -/
def rankOffers (s : State) (eligible : List Offer) (routing : Option Value) (now : ℤ)
    (random : ℕ → ℚ) : Except HttpError (List Offer × State) := do
  let settings ← routingSettings routing
  let ranked := (eligible.filter (withinCeiling H settings)).zipIdx.map fun p =>
    assess H s now settings.ratio p.1 (random p.2)
  return ((sort settings.mode ranked).map Ranked.offer,
    { s with selectionReservations := liveReservations s now })

/-! ### Selection -/

/-- What a selection is asked for. -/
structure Query where
  capability : Option JsString := none
  requesterNodeId : Option JsString := none
  routing : Option Value := none
  reserveFor : Option JsString := none

/-- What comes of the wait for the ledger: its answers, and the relay and the time after them. -/
structure Wait where
  getOffer : JsString → Except HttpError (Option Durable) := fun _ => .ok none
  state : State
  rankedAt : ℤ
  random : ℕ → ℚ := fun _ => 0
  reservedAt : ℤ

/-- `Boolean(s)` of a string that may be missing. -/
def given : Option JsString → Option JsString
  | some [] => none
  | s => s

/-- What of the filter depends on who asks. -/
def permits (offer : Offer) (requesterNodeId : Option JsString) : Bool :=
  match given requesterNodeId with
  | none => true
  | some requester =>
    offer.envelope.sender ≠ requester ∧
      ((H.localDevelopmentMode ∧ ¬H.paidNeedEnforcement) ∨
        providerPolicyAllowsRequester offer.policy requester H.trustedRequesterNodeIds)

def candidate (s : State) (now : ℤ) (q : Query) (offer : Offer) : Bool :=
  !offer.revoked ∧ Directory.capable q.capability offer ∧
    isNodeFresh H s offer.envelope.sender now ∧ permits H offer q.requesterNodeId

def candidates (s : State) (now : ℤ) (q : Query) : List Offer :=
  (s.directory.offersForCapability q.capability).filter (candidate H s now q)

/-- `selectionReservations.set(reserveFor, …)` for the first of the ranked offers. -/
def reserve (w : Wait) (q : Query) (ranked : List Offer) (s : State) : Except HttpError State :=
  match given q.reserveFor, ranked with
  | some needId, first :: _ =>
    if H.maxRequests ≤ s.selectionReservations.length then
      .error ⟨503, "selection_reservation_capacity_reached"⟩
    else
      let reservation := ⟨first.envelope.sender, w.reservedAt + H.selectionReservationMs⟩
      .ok { s with
        selectionReservations := Maps.set needId reservation s.selectionReservations }
  | _, _ => .ok s

def matchingOffers (s : State) (now : ℤ) (w : Wait) (q : Query) :
    Except HttpError (List Offer × State) := do
  if H.lifecycleLedger = some .cosmosMultiHost ∧ 128 < (candidates H s now q).length then
    throw ⟨503, "lifecycle_offer_scan_capacity_reached"⟩
  let eligible ← confirm H w.getOffer (candidates H s now q).length (candidates H s now q)
  let ranked ← rankOffers H w.state eligible q.routing w.rankedAt w.random
  let after ← reserve H w q ranked.1 ranked.2
  return (ranked.1, after)

end Truyn.Routing
