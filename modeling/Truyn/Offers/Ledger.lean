import Truyn.Ledger.Effects
import Truyn.Js.Json
import Truyn.Schemes.Acts

/-! offers:ledger | the capacity register, the owners' slots, and offers

    The multi-host ledger bounds what it holds. Before it creates the document of a NEED, an offer,
    an effect or an owner's index, it puts a ticket into one register that never gives tickets back.
    A recoverable offer takes a slot in the index of its owner as well, which has 128 of them. So one
    reservation writes three documents, each under its own ETag: register, index, offer.

    A request that fails (authorization, throttling, a deadline, a lost reply) is told nothing, and
    reads are current: a reply to a refused write carries the session token of what refused it. -/

namespace Truyn.Offers
open Ledger Ledger.Cosmos Programs

/-- What a document is about. -/
inductive Entity | need | offer | effect | offerOwner | capacity
  deriving DecidableEq, Repr

/-- The text `kind-digest`, in its two parts. -/
structure Partition where
  kind : Entity
  digest : JsString
  deriving DecidableEq, Repr

/-- A place in an owner's index. -/
structure Slot where
  id : JsString
  fingerprint : JsString
  deriving DecidableEq, Repr

structure Register where
  capacityVersion : ℕ
  scopeDigest : JsString
  recordCapacity : ℕ
  tickets : List Partition
  reserved : ℕ

structure OwnerIndex where
  owner : JsString
  slotLimit : ℕ
  offerSlots : List Slot

/-- What an offer is restored from; `offerDirectoryVersion` is 1 where there is one. -/
structure Directory where
  offerJson : JsString
  offerCapability : JsString

structure Offer where
  owner : JsString
  fingerprint : JsString
  revoked : Bool
  directory : Option Directory

inductive Body
  | need (doc : Doc)
  | offer (o : Offer)
  | effect (e : Effect)
  | offerOwner (i : OwnerIndex)
  | capacity (r : Register)

@[simp] def Body.kind : Body → Entity
  | .need _ => .need
  | .offer _ => .offer
  | .effect _ => .effect
  | .offerOwner _ => .offerOwner
  | .capacity _ => .capacity

structure Document where
  logicalId : JsString
  version : ℕ
  body : Body

/-- A signed envelope: what `signedOffer` reads, and its JSON text. -/
structure Envelope where
  id : JsString
  sender : JsString
  capability : Option JsString
  json : JsString

structure OfferReservation where
  id : JsString
  owner : JsString
  fingerprint : JsString
  envelope : Option Envelope

/-- What all processes on a container share. -/
structure Deployment where
  hash : JsString → JsString
  verifyEnvelope : Envelope → Bool
  base : JsString
  recordCapacity : Option ℕ

/-- The options of one process; `bytes` is the size of a document's JSON text. -/
structure Host where
  maxDocumentBytes : ℕ
  maxDeliveriesPerNeed : ℕ
  maxCasAttempts : ℕ
  bytes : Document → ℕ

abbrev LedgerAct := Act Partition Document Time Empty Fault

abbrev LedgerStore := Store Partition Document Empty

def unavailable : Fault := ⟨503, "lifecycle_ledger_unavailable"⟩

def invalidResponse : Fault := ⟨503, "lifecycle_ledger_invalid_response"⟩

def contractInvalid : Fault := ⟨503, "lifecycle_capacity_contract_invalid"⟩

def indexInvalid : Fault := ⟨503, "lifecycle_offer_owner_index_invalid"⟩

def integrityMismatch : Fault := ⟨409, "lifecycle_offer_integrity_mismatch"⟩

def capacityId : JsString := js "g5-container-admission-v1"

/-- `/^(need|offer|effect|offer-owner)-[a-f0-9]{64}$/`. -/
def isTicket (k : Partition) : Bool :=
  k.kind ≠ .capacity ∧ k.digest.length = 64 ∧
    k.digest.all fun u => (48 ≤ u ∧ u ≤ 57) ∨ (97 ≤ u ∧ u ≤ 102)

def validId (kind : Entity) (id : JsString) : Bool :=
  if kind = .need then validNeedId id else nonempty id

/-- The events that are not acknowledged. -/
def Document.pending (doc : Document) : ℕ :=
  match doc.body with
  | .need d => d.deliveries.countP fun x => x.acknowledgedAt = none
  | _ => 0

/-- Acknowledging all pending events (24 more bytes each) still fits. -/
def packed (h : Host) (doc : Document) : Except Fault Document :=
  if h.maxDocumentBytes < h.bytes doc + doc.pending * 24 + 128 then
    .error ⟨503, "lifecycle_document_capacity_reached"⟩
  else .ok doc

/-- The answer to the creation of a document that exists; an index has that of an effect. -/
def duplicate : Entity → Fault
  | .need => ⟨409, "duplicate_request"⟩
  | .offer => ⟨409, "duplicate_offer"⟩
  | _ => ⟨409, "duplicate_effect"⟩

section
variable (D : Deployment)

def Deployment.partitionId (kind : Entity) (id : JsString) : Partition := ⟨kind, D.hash id⟩

def Deployment.capacityKey : Partition := D.partitionId .capacity capacityId

/-! ### Requests -/

def get (kind : Entity) (id : JsString) : LedgerAct (Option Document) :=
  if !validId kind id then Act.throw ⟨400, "invalid_lifecycle_id"⟩
  else do
    match ← Act.get unavailable (D.partitionId kind id) with
    | none => pure none
    | some (_, doc) =>
      if doc.body.kind ≠ kind ∨ doc.logicalId ≠ id then Act.throw invalidResponse
      else pure (some doc)

/-- One round of `mutate`. -/
def update (h : Host) (kind : Entity) (id : JsString)
    (callback : Document → Except Fault (Option Body)) (_ : Time) (doc : Document) :
    Except Fault (Option Document) :=
  if doc.body.kind ≠ kind ∨ doc.logicalId ≠ id then .error invalidResponse
  else
    match callback doc with
    | .error f => .error f
    | .ok none => .ok none
    | .ok (some body) =>
      match packed h { doc with version := doc.version + 1, body := body } with
      | .error f => .error f
      | .ok next => .ok (some next)

def mutate (h : Host) (kind : Entity) (id : JsString)
    (callback : Document → Except Fault (Option Body)) : LedgerAct (Bool × Document) :=
  if !validId kind id then Act.throw ⟨400, "invalid_lifecycle_id"⟩
  else Act.mutate ⟨unavailable, unavailable, ⟨404, "lifecycle_not_found"⟩,
    ⟨503, "lifecycle_cas_contention"⟩⟩ (D.partitionId kind id) (update h kind id callback)
    h.maxCasAttempts

/-! ### Capacity -/

def validateCapacity (doc : Document) : Except Fault Register :=
  match doc.body with
  | .capacity r =>
    if doc.logicalId ≠ capacityId ∨ r.capacityVersion ≠ 1 ∨ r.scopeDigest ≠ D.hash D.base ∨
        D.recordCapacity ≠ some r.recordCapacity ∨ doc.version < 1 ∨
        9007199254740991 ≤ doc.version ∨ r.recordCapacity < r.tickets.length ∨
        r.reserved ≠ r.tickets.length ∨ ¬r.tickets.Nodup ∨ r.tickets.any (fun k => !isTicket k) then
      .error contractInvalid
    else .ok r
  | _ => .error contractInvalid

def ticketUpdate (ticket : Partition) (doc : Document) : Except Fault (Option Body) :=
  match validateCapacity D doc with
  | .error f => .error f
  | .ok r =>
    if ticket ∈ r.tickets then .ok none
    else if r.recordCapacity ≤ r.reserved then .error ⟨503, "lifecycle_global_capacity_reached"⟩
    else .ok (some (.capacity { r with
      tickets := r.tickets ++ [ticket], reserved := r.tickets.length + 1 }))

def reserveCreationCapacity (h : Host) (kind : Entity) (id : JsString) : LedgerAct Unit :=
  if D.recordCapacity.isNone then pure ()
  else do
    let ticket := D.partitionId kind id
    let result ← Act.catching (mutate D h .capacity capacityId (ticketUpdate D ticket)) fun e =>
      Act.throw (if e.status = 404 then ⟨503, "lifecycle_capacity_not_initialized"⟩ else e)
    let saved ← Act.check (validateCapacity D result.2)
    if ticket ∉ saved.tickets then Act.throw ⟨503, "lifecycle_capacity_commit_unverified"⟩
    else pure ()

/-- The ticket comes first: where it is lost, no document follows it. -/
def create (h : Host) (id : JsString) (body : Body) : LedgerAct Document := do
  let doc ← Act.check (packed h ⟨id, 1, body⟩)
  reserveCreationCapacity D h body.kind id
  if ← Act.put unavailable (D.partitionId body.kind id) 0 doc then pure doc
  else Act.throw (duplicate body.kind)

/-! ### Slots -/

def validateOfferOwner (doc : Document) (owner : JsString) : Except Fault OwnerIndex :=
  match doc.body with
  | .offerOwner i =>
    if i.owner ≠ owner ∨ i.slotLimit ≠ 128 ∨ 128 < i.offerSlots.length ∨
        (i.offerSlots.any fun slot => !nonempty slot.id ∨ !nonempty slot.fingerprint) ∨
        ¬(i.offerSlots.map Slot.id).Nodup then .error indexInvalid
    else .ok i
  | _ => .error indexInvalid

/-- `{id, fingerprint}`. -/
def OfferReservation.slot (c : OfferReservation) : Slot := ⟨c.id, c.fingerprint⟩

def claimUpdate (c : OfferReservation) (doc : Document) : Except Fault (Option Body) :=
  match validateOfferOwner doc c.owner with
  | .error f => .error f
  | .ok i =>
    match i.offerSlots.find? fun slot => slot.id = c.id with
    | some slot => if slot.fingerprint ≠ c.fingerprint then .error integrityMismatch else .ok none
    | none =>
      if i.slotLimit ≤ i.offerSlots.length then
        .error ⟨503, "lifecycle_offer_owner_capacity_reached"⟩
      else .ok (some (.offerOwner { i with
        offerSlots := i.offerSlots ++ [c.slot] }))

/-- The callback that releases a slot, of a revoked offer and of a claim. -/
def releaseUpdate (owner : JsString) (slot : Slot) (doc : Document) : Except Fault (Option Body) :=
  match validateOfferOwner doc owner with
  | .error f => .error f
  | .ok i =>
    match i.offerSlots.find? fun entry => entry.id = slot.id with
    | none => .ok none
    | some found =>
      if found.fingerprint ≠ slot.fingerprint then .error indexInvalid
      else .ok (some (.offerOwner { i with
        offerSlots := i.offerSlots.filter fun entry => entry.id ≠ slot.id }))

/-- `catch (error) { if (error.httpStatus !== 409) throw error; }`. -/
def unlessConflict (e : Fault) : LedgerAct Unit :=
  if e.status ≠ 409 then Act.throw e else pure ()

/-- The index of an owner, created where there is none. -/
def createOfferOwner (h : Host) (owner : JsString) : LedgerAct Unit := do
  match ← get D .offerOwner owner with
  | some _ => pure ()
  | none =>
    Act.catching (do let _ ← create D h owner (.offerOwner ⟨owner, 128, []⟩)) unlessConflict

def claimOfferSlot (h : Host) (c : OfferReservation) : LedgerAct Unit := do
  createOfferOwner D h c.owner
  let _ ← mutate D h .offerOwner c.owner (claimUpdate c)

def releaseRevokedOfferSlot (h : Host) (offer : Document) : LedgerAct Unit :=
  match offer.body with
  | .offer o =>
    if o.directory.isNone then pure ()
    else do
      let _ ← mutate D h .offerOwner o.owner
        (releaseUpdate o.owner ⟨offer.logicalId, o.fingerprint⟩)
  | _ => pure ()

def releaseOfferClaim (h : Host) (c : OfferReservation) : LedgerAct Unit := do
  match ← get D .offerOwner c.owner with
  | none => pure ()
  | some _ =>
    let _ ← mutate D h .offerOwner c.owner (releaseUpdate c.owner c.slot)

/-! ### The ledger's calls -/

/-- What a recoverable offer is restored from, of an envelope that is in order. -/
def signedOffer (c : OfferReservation) (e : Envelope) : Except Fault Directory :=
  if e.json = [] ∨ 128000 < byteLength e.json then .error ⟨413, "lifecycle_offer_too_large"⟩
  else
    match e.capability with
    | none => .error integrityMismatch
    | some capability =>
      if !D.verifyEnvelope e ∨ e.id ≠ c.id ∨ e.sender ≠ c.owner ∨ D.hash e.json ≠ c.fingerprint ∨
          !nonempty capability then .error integrityMismatch
      else .ok ⟨e.json, capability⟩

/-- `envelope == null ? {} : signedOffer(envelope, ...)`. -/
def projection (c : OfferReservation) : Except Fault (Option Directory) :=
  match c.envelope with
  | none => .ok none
  | some e =>
    match signedOffer D c e with
    | .error f => .error f
    | .ok d => .ok (some d)

def OfferReservation.offer (c : OfferReservation) (d : Option Directory) : Body :=
  .offer ⟨c.owner, c.fingerprint, false, d⟩

/-- What comes before the creation of a recoverable offer: it fits, it is new, it has a slot. -/
def prepareOffer (h : Host) (c : OfferReservation) (d : Option Directory) : LedgerAct Unit :=
  if d.isNone then pure ()
  else do
    let _ ← Act.check (packed h ⟨c.id, 1, c.offer d⟩)
    match ← get D .offer c.id with
    | some _ => Act.throw (duplicate .offer)
    | none => claimOfferSlot D h c

/-- The document is an offer of another owner or with another fingerprint. -/
def OfferReservation.differs (c : OfferReservation) (existing : Document) : Bool :=
  match existing.body with
  | .offer o => o.owner ≠ c.owner ∨ o.fingerprint ≠ c.fingerprint
  | _ => false

/-- What follows a failed creation. -/
def abandonOffer (h : Host) (c : OfferReservation) (d : Option Directory) (e : Fault) :
    LedgerAct Document :=
  if d.isNone ∨ e ≠ duplicate .offer then Act.throw e
  else do
    match ← get D .offer c.id with
    | none => Act.throw e
    | some existing =>
      if c.differs existing then do
        releaseOfferClaim D h c
        Act.throw e
      else Act.throw e

def reserveOffer (h : Host) (c : OfferReservation) : LedgerAct Document :=
  if !([c.id, c.owner, c.fingerprint].all nonempty) then
    Act.throw ⟨400, "invalid_offer_reservation"⟩
  else do
    let d ← Act.check (projection D c)
    prepareOffer D h c d
    Act.catching (create D h c.id (c.offer d)) (abandonOffer D h c d)

def revokeUpdate (owner : JsString) (doc : Document) : Except Fault (Option Body) :=
  match doc.body with
  | .offer o =>
    if o.owner ≠ owner then .error ⟨403, "not_target_owner"⟩
    else if o.revoked then .ok none
    else .ok (some (.offer { o with revoked := true }))
  | _ => .error invalidResponse

def revokeOffer (h : Host) (id owner : JsString) : LedgerAct (Bool × Document) := do
  let result ← mutate D h .offer id (revokeUpdate owner)
  releaseRevokedOfferSlot D h result.2
  pure result

def reserveNeed (h : Host) (c : Reservation) : LedgerAct Document :=
  if !validNeedId c.id ∨ !([c.requester, c.provider, c.fingerprint, c.capability, c.mode, c.scope,
      c.policyDigest].all nonempty) then Act.throw ⟨400, "invalid_lifecycle_reservation"⟩
  else if c.paidAuthorization.any fun p => !PaidAuthorization.fits p c then
    Act.throw ⟨403, "paid_need_authorization_invalid"⟩
  else do
    let now ← Act.ask
    let doc ← Act.check (appendDelivery ⟨h.maxDocumentBytes, h.maxDeliveriesPerNeed,
      h.maxCasAttempts, fun d => h.bytes ⟨d.logicalId, d.version, .need d⟩⟩
      (freshDoc c now) c.delivery .NEED c.provider)
    create D h c.id (.need doc)

/-- The effect taken before is of the same parties and the same work. -/
def sameEffect (c : Intent) (existing : Document) : Bool :=
  match existing.body with
  | .effect e => c.matches e.requester e.provider e.fingerprint
  | _ => false

def beginEffect (h : Host) (c : Intent) : LedgerAct Bool :=
  if !([c.id, c.requester, c.provider, c.fingerprint].all nonempty) then
    Act.throw ⟨400, "invalid_effect_intent"⟩
  else do
    let now ← Act.ask
    Act.catching (do let _ ← create D h c.id (.effect (c.effect now)); pure true) fun e =>
      if e.status ≠ 409 then Act.throw e
      else do
        match ← get D .effect c.id with
        | none => Act.throw unavailable
        | some existing =>
          if sameEffect c existing then pure false else Act.throw identityConflict

inductive LedgerRequest
  | reserveNeed (h : Host) (c : Reservation)
  | beginEffect (h : Host) (c : Intent)
  | reserveOffer (h : Host) (c : OfferReservation)
  | revokeOffer (h : Host) (id owner : JsString)

inductive LedgerReply
  | created (doc : Document)
  | begun (acquired : Bool)
  | revoked (changed : Bool) (row : Document)

def program : LedgerRequest → LedgerAct LedgerReply
  | .reserveNeed h c => do pure (.created (← reserveNeed D h c))
  | .beginEffect h c => do pure (.begun (← beginEffect D h c))
  | .reserveOffer h c => do pure (.created (← reserveOffer D h c))
  | .revokeOffer h id owner => do
    let r ← revokeOffer D h id owner
    pure (.revoked r.1 r.2)

end

end Truyn.Offers
