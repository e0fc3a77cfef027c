import Truyn.Ledger.Safety

/-! ledger:cosmos | the multi-host ledger: one document for each NEED, written by ETag-CAS

    `reserveNeed` creates the document of a NEED; the other calls run `mutate`: read the document,
    let a callback compute the next version, write it back under the ETag that was read, and start
    over when another replica was faster. The service, its lost replies and stale session reads are
    those of `Cas`; this module gives the client its plans and callbacks. Faults of `api` that do
    not depend on the document (authorization, throttling, deadlines, the capacity register of
    `reserveCreationCapacity`, which is a document of its own) arrive as `Event.fail` and
    `Event.giveUp`. -/

namespace Truyn.Ledger.Cosmos
open Async Cas

/-- The document of a NEED. -/
structure Doc extends Record where
  logicalId : JsString
  scope : JsString
  policyDigest : JsString
  paidAuthorization : Option PaidAuthorization
  version : ℕ

/-- The ledger's options; `bytes` is the size of a document's JSON text. -/
structure Config where
  maxDocumentBytes : ℕ
  maxDeliveriesPerNeed : ℕ
  maxCasAttempts : ℕ
  bytes : Doc → ℕ

/-- `nonempty`. -/
def nonempty (x : JsString) : Bool := 0 < x.length ∧ x.length ≤ 4096

def validNeedId (id : JsString) : Bool := nonempty id ∧ id.length ≤ 4070

def invalidDelivery : Fault := ⟨400, "invalid_lifecycle_delivery"⟩

def invalidAck : Fault := ⟨400, "invalid_delivery_ack"⟩

/-- `deliveryFor`, for a kind the ledger knows. -/
def deliveryFor (kind : Kind) (id recipient : JsString) (event : Option Event) :
    Except Fault OutboxItem :=
  match event with
  | none => .error invalidDelivery
  | some e =>
    if kind ∉ [.NEED, .RESULT, .REVOKE, .PARTIAL] ∨ !nonempty recipient ∨ e.kind ≠ kind then
      .error invalidDelivery
    else if 128000 < e.json.length then .error ⟨413, "lifecycle_delivery_too_large"⟩
    else .ok ⟨eventId kind id e, recipient, kind, e, none⟩

def appendDelivery (cfg : Config) (doc : Doc) (delivery : Option Delivery) (expectedKind : Kind)
    (recipient : JsString) : Except Fault Doc :=
  match delivery with
  | none => .ok doc
  | some d =>
    if d.kind ≠ expectedKind ∨ d.recipient ≠ recipient then .error invalidDelivery
    else if cfg.maxDeliveriesPerNeed ≤ doc.deliveries.length then
      .error ⟨503, "lifecycle_outbox_capacity_reached"⟩
    else
      match deliveryFor d.kind doc.logicalId d.recipient d.event with
      | .error f => .error f
      | .ok item =>
        if doc.deliveries.any fun e => e.eventId = item.eventId then
          .error ⟨409, "delivery_already_recorded"⟩
        else .ok { doc with deliveries := doc.deliveries ++ [item] }

/-- A document fits when acknowledging all its events (24 more bytes each) still does. -/
def packed (cfg : Config) (doc : Doc) : Except Fault Doc :=
  let pending := doc.deliveries.countP fun x => x.acknowledgedAt = none
  if cfg.maxDocumentBytes < cfg.bytes doc + pending * 24 + 128 then
    .error ⟨503, "lifecycle_document_capacity_reached"⟩
  else .ok doc

/-- `authorize`; a missing or empty party is not checked. -/
def authorize (doc : Doc) (requester provider : Option JsString) : Except Fault Unit :=
  if requester.any fun x => x ≠ [] ∧ doc.requester ≠ x then .error ⟨403, "not_request_owner"⟩
  else if provider.any fun x => x ≠ [] ∧ doc.provider ≠ x then .error ⟨403, "provider_mismatch"⟩
  else .ok ()

/-! ### reserveNeed -/

/-- The paid authority is the one of this very NEED, paid by its provider's owner. -/
def PaidAuthorization.fits (p : PaidAuthorization) (c : Reservation) : Bool :=
  p.contract = js "truyn.paid.need/1" ∧ p.status = js "authorized" ∧
    p.requesterNodeId = c.requester ∧ p.providerNodeId = c.provider ∧
    p.capability = c.capability ∧ p.payerNodeId = c.provider ∧
    p.billingResponsibility = js "provider-owner" ∧ isSafeInteger p.authorityRevision ∧
    0 ≤ p.authorityRevision

/-- The document that `reserveNeed` builds before its delivery is appended. -/
def freshDoc (c : Reservation) (now : Time) : Doc :=
  { c.record now [] with
    logicalId := c.id, scope := c.scope, policyDigest := c.policyDigest,
    paidAuthorization := c.paidAuthorization, version := 1 }

def reserveNeed (cfg : Config) (c : Reservation) (now : Time) : Except Fault Doc :=
  if !validNeedId c.id ∨ !([c.requester, c.provider, c.fingerprint, c.capability, c.mode, c.scope,
      c.policyDigest].all nonempty) then .error ⟨400, "invalid_lifecycle_reservation"⟩
  else if c.paidAuthorization.any fun p => !PaidAuthorization.fits p c then
    .error ⟨403, "paid_need_authorization_invalid"⟩
  else
    match appendDelivery cfg (freshDoc c now) c.delivery .NEED c.provider with
    | .error f => .error f
    | .ok doc => packed cfg doc

/-! ### Callbacks of mutate -/

/-- The delivery that announces the status a record goes to. -/
def appendTerminal (cfg : Config) (c : Transition) (doc : Doc) : Except Fault Doc :=
  match c.toStatus with
  | .completed => appendDelivery cfg doc c.delivery .RESULT doc.requester
  | .cancelled => appendDelivery cfg doc c.delivery .REVOKE doc.provider
  | _ => .ok doc

def transitionNeed (cfg : Config) (c : Transition) (now : Time) (doc : Doc) :
    Except Fault (Option Doc) :=
  match authorize doc c.requester c.provider with
  | .error f => .error f
  | .ok () =>
    if doc.status ≠ .matched then
      if c.toStatus = .cancelled ∧ doc.status = .cancelled then .ok none
      else .error (terminalFault doc.status)
    else if c.toStatus = .failed ∧ c.delivery.isSome then .error invalidDelivery
    else
      match appendTerminal cfg c doc with
      | .error f => .error f
      | .ok doc' => .ok (some { doc' with status := c.toStatus, terminalAt := some now })

def acceptPartial (cfg : Config) (c : Partial) (doc : Doc) : Except Fault (Option Doc) :=
  match authorize doc none (some c.provider) with
  | .error f => .error f
  | .ok () =>
    if doc.status ≠ .matched then .error (terminalFault doc.status)
    else if c.sequence = (doc.partialSequence : ℤ) - 1 ∧ c.digest = doc.partialDigest then .ok none
    else if c.sequence ≠ doc.partialSequence then .error ⟨409, "partial_sequence_mismatch"⟩
    else
      match c.delivery with
      | none => .error ⟨400, "partial_delivery_required"⟩
      | some d =>
        if !d.event.any fun e => e.sequence = some c.sequence ∧ e.requestId = some c.id then
          .error ⟨400, "invalid_partial_delivery"⟩
        else
          match appendDelivery cfg doc (some d) .PARTIAL doc.requester with
          | .error f => .error f
          | .ok doc' => .ok (some { doc' with
              partialSequence := doc'.partialSequence + 1, partialDigest := c.digest })

/-- Acknowledge the first item with this event id. -/
def acknowledge (eventId : JsString) (now : Time) : List OutboxItem → List OutboxItem
  | [] => []
  | i :: l =>
    if i.eventId = eventId then { i with acknowledgedAt := some now } :: l
    else i :: acknowledge eventId now l

def acknowledgeDelivery (c : Acknowledgement) (now : Time) (doc : Doc) :
    Except Fault (Option Doc) :=
  match doc.deliveries.find? fun x => x.eventId = c.eventId with
  | none => .error ⟨404, "delivery_not_found"⟩
  | some event =>
    if event.recipient ≠ c.recipient then .error ⟨404, "delivery_not_found"⟩
    else if event.acknowledgedAt.isSome then .ok none
    else .ok (some { doc with deliveries := acknowledge c.eventId now doc.deliveries })

/-- The callback of a call. -/
def callback (cfg : Config) (now : Time) (doc : Doc) : Call → Except Fault (Option Doc)
  | .reserveNeed _ => .ok none
  | .transitionNeed c => transitionNeed cfg c now doc
  | .acceptPartial c => acceptPartial cfg c doc
  | .acknowledgeDelivery c => acknowledgeDelivery c now doc

/-! ### The NEED an event belongs to -/

/-- `/^(0|[1-9]\d*)$/`. -/
def isDecimal (s : JsString) : Bool :=
  s = js "0" ∨ (s.headD 0 ≠ 48 ∧ s ≠ [] ∧ s.all fun u => 48 ≤ u ∧ u ≤ 57)

/-- The last colon of a string. -/
def lastColon (s : JsString) : Option ℕ := (s.reverse.idxOf? 58).map fun n => s.length - 1 - n

/-- The NEED id inside `need:<id>`, `result:<id>`, `revoke:<id>` or `partial:<id>:<sequence>`. -/
def needOfEvent (eventId : JsString) : Except Fault JsString :=
  match eventId.idxOf? 58 with
  | none => .error invalidAck
  | some separator =>
    let kind := eventId.take separator
    let id := eventId.drop (separator + 1)
    if separator = 0 ∨ kind ∉ [js "need", js "result", js "revoke", js "partial"] then
      .error invalidAck
    else if kind = js "partial" then
      match lastColon id with
      | none => .error invalidAck
      | some last =>
        if last = 0 ∨ !isDecimal (id.drop (last + 1)) ∨ !nonempty (id.take last) then
          .error invalidAck
        else .ok (id.take last)
    else if !nonempty id then .error invalidAck
    else .ok id

/-- The document a call is about. -/
def key : Call → JsString
  | .reserveNeed c => c.id
  | .transitionNeed c => c.id
  | .acceptPartial c => c.id
  | .acknowledgeDelivery c => (needOfEvent c.eventId).toOption.getD []

/-! ### The client -/

/-- The checks on a call's arguments before `mutate` reads the document. -/
def arguments : Call → Except Fault Unit
  | .reserveNeed _ => .ok ()
  | .transitionNeed c =>
    if c.toStatus = .matched then .error ⟨400, "invalid_lifecycle_transition"⟩ else .ok ()
  | .acceptPartial c =>
    if !nonempty c.provider then .error ⟨400, "invalid_partial_provider"⟩
    else if !isSafeInteger c.sequence ∨ c.sequence < 0 ∨ !c.digest.any nonempty then
      .error ⟨400, "invalid_partial_sequence"⟩
    else .ok ()
  | .acknowledgeDelivery c =>
    if !nonempty c.eventId ∨ !nonempty c.recipient then .error invalidAck
    else (needOfEvent c.eventId).map fun _ => ()

/-- `create` for a reservation, else `mutate`, whose `get` refuses ids that name no NEED. -/
def plan (cfg : Config) (c : Call) (now : Time) : Except Fault (Option Doc) :=
  match c with
  | .reserveNeed r => (reserveNeed cfg r now).map some
  | c =>
    match arguments c with
    | .error f => .error f
    | .ok () => if validNeedId (key c) then .ok none else .error ⟨400, "invalid_lifecycle_id"⟩

/-- One round of `mutate`: the document read must be the one asked for, the next one must fit. -/
def edit (cfg : Config) (c : Call) (now : Time) (doc : Doc) : Except Fault (Option Doc) :=
  if doc.logicalId ≠ key c then .error ⟨503, "lifecycle_ledger_invalid_response"⟩
  else
    match callback cfg now doc c with
    | .error f => .error f
    | .ok none => .ok none
    | .ok (some next) => (packed cfg { next with version := doc.version + 1 }).map some

def client (cfg : Config) : Client JsString Call Time Doc Fault where
  key := key
  plan := plan cfg
  edit := edit cfg
  retries := cfg.maxCasAttempts - 1
  absent := ⟨404, "lifecycle_not_found"⟩
  duplicate := ⟨409, "duplicate_request"⟩
  contention := ⟨503, "lifecycle_cas_contention"⟩

/-- Any number of replicas calling the ledger. -/
def machine (cfg : Config) := Cas.machine (client cfg)

/-! ### The client implements the abstract ledger -/

/-- A call that reserves nothing is refused before its document is read, or creates none. -/
theorem plan_mutates {cfg : Config} {c : Call} {now : Time} (hc : c.reserves = false) :
    (∀ f, arguments c = .error f → plan cfg c now = .error f) ∧
      (arguments c = .ok () → plan cfg c now =
        if validNeedId (key c) then .ok none else .error ⟨400, "invalid_lifecycle_id"⟩) := by
  cases c with
  | reserveNeed c => cases hc
  | _ => exact ⟨fun f hf => by simp only [plan, hf], fun hok => by simp only [plan, hok]⟩

variable {doc doc' : Doc} {cfg : Config} {now : Time} {c : Call}

theorem packed_ok (h : packed cfg doc = .ok doc') : doc' = doc := by
  unfold packed at h
  simp only at h
  split at h <;> cases h
  rfl

/-- An appended delivery is the one event the call was asked to post; nothing else changes. -/
theorem appendDelivery_ok {delivery : Option Delivery} {kind : Kind} {recipient : JsString}
    (h : appendDelivery cfg doc delivery kind recipient = .ok doc') :
    ∃ items, Posts doc.logicalId kind recipient delivery items ∧
      doc' = { doc with deliveries := doc.deliveries ++ items } := by
  unfold appendDelivery at h
  rcases delivery with _ | ⟨recipient', kind', event⟩
  · cases h
    exact ⟨[], .none, by simp⟩
  · simp only at h
    split at h
    · cases h
    next hk =>
    obtain ⟨rfl, rfl⟩ : kind' = kind ∧ recipient' = recipient := by
      simpa only [ne_eq, not_or, not_not] using hk
    split at h
    · cases h
    split at h
    · cases h
    next item hitem =>
    split at h
    · cases h
    cases h
    unfold deliveryFor at hitem
    split at hitem
    · cases hitem
    next e =>
    split at hitem
    · cases hitem
    next he =>
    split at hitem
    · cases hitem
    cases hitem
    have hek : e.kind = kind' := by
      by_contra hne
      exact he (Or.inr (Or.inr hne))
    exact ⟨_, .some hek, rfl⟩

theorem map_acknowledge (eventId : JsString) (now : Time) : ∀ l : List OutboxItem,
    (acknowledge eventId now l).map OutboxItem.pending = l.map OutboxItem.pending
  | [] => rfl
  | i :: l => by
    unfold acknowledge
    split
    · rfl
    · rw [List.map_cons, map_acknowledge eventId now l, List.map_cons]

theorem reserveNeed_creates {c : Reservation} (h : reserveNeed cfg c now = .ok doc) :
    Creates (.reserveNeed c) now doc.toRecord := by
  unfold reserveNeed at h
  split at h
  · cases h
  split at h
  · cases h
  split at h
  · cases h
  next doc' hd =>
  obtain ⟨items, hp, rfl⟩ := appendDelivery_ok hd
  obtain rfl := packed_ok h
  exact .reserveNeed hp

theorem transitionNeed_edits {c : Transition} (hid : doc.logicalId = c.id)
    (hto : c.toStatus ≠ .matched) (h : transitionNeed cfg c now doc = .ok (some doc')) :
    Edits (.transitionNeed c) now doc.toRecord doc'.toRecord := by
  unfold transitionNeed at h
  split at h
  · cases h
  split at h
  · split at h <;> cases h
  next hm =>
  split at h
  · cases h
  split at h
  · cases h
  next doc₁ hd =>
  cases h
  obtain ⟨items, ha, rfl⟩ : ∃ items, c.announces doc.toRecord items ∧
      doc₁ = { doc with deliveries := doc.deliveries ++ items } := by
    simp only [Transition.announces]
    unfold appendTerminal at hd
    cases hs : c.toStatus <;> simp only [hs] at hd
    · exact absurd hs hto
    · exact hid ▸ appendDelivery_ok hd
    · exact hid ▸ appendDelivery_ok hd
    · cases hd; exact ⟨[], rfl, by simp⟩
  exact .transitionNeed (not_not.mp hm) hto ha

theorem acceptPartial_edits {c : Partial} (hid : doc.logicalId = c.id)
    (h : acceptPartial cfg c doc = .ok (some doc')) :
    Edits (.acceptPartial c) now doc.toRecord doc'.toRecord := by
  unfold acceptPartial at h
  split at h
  · cases h
  split at h
  · cases h
  next hm =>
  split at h
  · cases h
  split at h
  · cases h
  next hseq =>
  split at h
  · cases h
  next d hd =>
  split at h
  · cases h
  next hev =>
  split at h
  · cases h
  next doc₁ happ =>
  cases h
  obtain ⟨items, hp, rfl⟩ := appendDelivery_ok happ
  refine .acceptPartial (not_not.mp hm) (not_not.mp hseq) (by rw [hd, ← hid]; exact hp) ?_
  cases hp
  simp only [Option.any_some, Bool.not_eq_true', decide_eq_false_iff_not, not_not] at hev
  simpa using hev.1

theorem acknowledgeDelivery_edits {c : Acknowledgement}
    (h : acknowledgeDelivery c now doc = .ok (some doc')) :
    Edits (.acknowledgeDelivery c) now doc.toRecord doc'.toRecord := by
  unfold acknowledgeDelivery at h
  split at h
  · cases h
  split at h
  · cases h
  split at h
  · cases h
  cases h
  exact .acknowledgeDelivery (map_acknowledge _ _ _)

theorem plan_creates (h : plan cfg c now = .ok (some doc)) : Creates c now doc.toRecord := by
  cases c with
  | reserveNeed c =>
    simp only [plan] at h
    cases hr : reserveNeed cfg c now with
    | error f => rw [hr] at h; cases h
    | ok d =>
      rw [hr] at h
      cases h
      exact reserveNeed_creates hr
  | _ =>
    simp only [plan] at h
    split at h
    · cases h
    · split at h <;> cases h

theorem callback_edits {next : Doc} (hadm : (client cfg).Admits c) (hid : doc.logicalId = key c)
    (h : callback cfg now doc c = .ok (some next)) :
    Edits c now doc.toRecord next.toRecord := by
  cases c with
  | reserveNeed c => cases h
  | transitionNeed c =>
    obtain ⟨t, hplan⟩ := hadm
    have hto : c.toStatus ≠ .matched := fun hm => by
      simp [client, plan, arguments, hm] at hplan
    exact transitionNeed_edits hid hto h
  | acceptPartial c => exact acceptPartial_edits hid h
  | acknowledgeDelivery c => exact acknowledgeDelivery_edits h

/-- A callback changes the record of a document and nothing else. -/
theorem callback_frame {next : Doc} (h : callback cfg now doc c = .ok (some next)) :
    next = { doc with toRecord := next.toRecord } := by
  cases c with
  | reserveNeed c => cases h
  | acceptPartial c =>
    simp only [callback, acceptPartial] at h
    repeat' split at h
    all_goals first | cases h; done | skip
    next happ =>
      cases h
      obtain ⟨items, -, rfl⟩ := appendDelivery_ok happ
      rfl
  | transitionNeed c =>
    simp only [callback, transitionNeed] at h
    repeat' split at h
    all_goals first | cases h; done | skip
    next happ =>
      cases h
      unfold appendTerminal at happ
      split at happ
      · obtain ⟨items, -, rfl⟩ := appendDelivery_ok happ
        rfl
      · obtain ⟨items, -, rfl⟩ := appendDelivery_ok happ
        rfl
      · cases happ
        rfl
  | acknowledgeDelivery c =>
    simp only [callback, acknowledgeDelivery] at h
    repeat' split at h
    all_goals first | cases h; done | skip
    cases h
    rfl

theorem edit_edits (hadm : (client cfg).Admits c) (h : edit cfg c now doc = .ok (some doc')) :
    Edits c now doc.toRecord doc'.toRecord := by
  unfold edit at h
  split at h
  · cases h
  next hid =>
  split at h
  · cases h
  · cases h
  next next hcb =>
  cases hpk : packed cfg { next with version := doc.version + 1 } with
  | error f => rw [hpk] at h; cases h
  | ok d =>
    rw [hpk] at h
    cases h
    rw [packed_ok hpk]
    have he := callback_edits hadm (not_not.mp hid) hcb
    exact he

/-- The versions of a NEED's record, newest first. -/
def history (w : Cas.World JsString Call Time Doc Fault) (id : JsString) : History :=
  (w.docs id).map fun v => ⟨v.call, v.time, v.doc.toRecord⟩

/-- The record that the store holds for a NEED. -/
def view (w : Cas.World JsString Call Time Doc Fault) (id : JsString) : Option Record :=
  (w.docs id).head?.map fun v => v.doc.toRecord

theorem view_eq_head (w : Cas.World JsString Call Time Doc Fault) (id : JsString) :
    view w id = (history w id).head?.map Version.doc := by
  unfold view history
  cases w.docs id <;> rfl

/-- The versions of every record form a lineage of the abstract ledger. -/
theorem abstract_of_runs (cfg : Config)
    {s : Sys (Cas.World JsString Call Time Doc Fault) (Cas.Task Call Time Doc)}
    (h : Runs (machine cfg) free Cas.init s) (id : JsString) : Abstract (history s.shared id) :=
  (lineage_of_runs (client cfg) h id).map Doc.toRecord (fun _ _ _ h => plan_creates h.2)
    fun _ _ _ _ h => edit_edits h.2.1 h.2.2

end Truyn.Ledger.Cosmos
