import Truyn.Js.Text
import Truyn.Schemes.Cas

/-! ledger:need | what a durable record of one NEED is for

    The relay's lifecycle ledgers keep one record for each NEED: who asked whom, whether the NEED
    is still matched or how it ended, how many PARTIAL frames were accepted, and the outbox of
    signed events to deliver. Four calls write it. This module has their vocabulary and the abstract
    ledger: which next versions of a record a committed call may write (`Creates`, `Edits`).

    The abstract ledger keeps its promises (`safe_of_lineage`): a NEED is reserved once, leaves
    `matched` once, its terminal status is final, and its outbox says exactly what happened. -/

namespace Truyn.Ledger
open Cas

/-- An error with an HTTP status and a public code. -/
structure Fault where
  status : ℕ
  code : String
  deriving DecidableEq, Repr

inductive NeedStatus | matched | completed | cancelled | failed
  deriving DecidableEq, Repr

/-- The answer to a write on a record that is no longer matched. -/
def terminalFault : NeedStatus → Fault
  | .cancelled => ⟨409, "request_cancelled"⟩
  | .failed => ⟨409, "request_failed"⟩
  | _ => ⟨409, "request_already_completed"⟩

/-- `Number.isSafeInteger`. -/
def isSafeInteger (z : ℤ) : Bool := -9007199254740991 ≤ z ∧ z ≤ 9007199254740991

/-- An optional party (missing or empty: not checked) is the recorded one. -/
def Party (party : Option JsString) (recorded : JsString) : Prop :=
  ∀ p ∈ party, p ≠ [] → recorded = p

instance (party : Option JsString) (recorded : JsString) : Decidable (Party party recorded) := by
  unfold Party; infer_instance

/-- Kinds of outbox events; a caller may pass any other string. -/
inductive Kind | NEED | PARTIAL | RESULT | REVOKE | other (s : JsString)
  deriving DecidableEq, Repr

/-- `kind.toLowerCase()` of the kinds that name an event. -/
def Kind.toLowerCase : Kind → JsString
  | .NEED => js "need"
  | .PARTIAL => js "partial"
  | .RESULT => js "result"
  | .REVOKE => js "revoke"
  | .other s => s

/-- Milliseconds of a timestamp. -/
abbrev Time := ℕ

/-- A signed event: the fields the ledgers look at, and its JSON text. -/
structure Event where
  kind : Kind
  sequence : Option ℤ
  requestId : Option JsString
  json : JsString
  deriving DecidableEq, Repr

/-- What a caller wants delivered with its call. -/
structure Delivery where
  recipient : JsString
  kind : Kind
  event : Option Event
  deriving DecidableEq, Repr

structure OutboxItem where
  eventId : JsString
  recipient : JsString
  kind : Kind
  event : Event
  acknowledgedAt : Option Time
  deriving DecidableEq, Repr

/-- `partial:<id>:<sequence>` or `<kind>:<id>`. -/
def eventId (kind : Kind) (id : JsString) (event : Event) : JsString :=
  if kind = .PARTIAL then js "partial:" ++ id ++ js ":" ++ decimal event.sequence
  else kind.toLowerCase ++ js ":" ++ id

structure PaidAuthorization where
  contract : JsString
  status : JsString
  requesterNodeId : JsString
  providerNodeId : JsString
  capability : JsString
  payerNodeId : JsString
  billingResponsibility : JsString
  authorityRevision : ℤ
  deriving DecidableEq, Repr

/-- The durable record of one NEED with its outbox. -/
structure Record where
  requester : JsString
  provider : JsString
  fingerprint : JsString
  capability : JsString
  mode : JsString
  status : NeedStatus
  createdAt : Time
  terminalAt : Option Time
  partialSequence : ℕ
  partialDigest : Option JsString
  deliveries : List OutboxItem
  deriving DecidableEq, Repr

/-! ### Calls -/

structure Reservation where
  id : JsString
  requester : JsString
  provider : JsString
  fingerprint : JsString
  capability : JsString
  mode : JsString
  scope : JsString
  policyDigest : JsString
  paidAuthorization : Option PaidAuthorization
  delivery : Option Delivery

structure Partial where
  id : JsString
  provider : JsString
  sequence : ℤ
  digest : Option JsString
  delivery : Option Delivery

structure Transition where
  id : JsString
  requester : Option JsString
  provider : Option JsString
  toStatus : NeedStatus
  delivery : Option Delivery

structure Acknowledgement where
  eventId : JsString
  recipient : JsString

inductive Call
  | reserveNeed (c : Reservation)
  | acceptPartial (c : Partial)
  | transitionNeed (c : Transition)
  | acknowledgeDelivery (c : Acknowledgement)

/-- The call reserves a NEED. -/
def Call.reserves : Call → Bool
  | .reserveNeed _ => true
  | _ => false

/-- The call is no `acceptPartial`, or one that carries a delivery. -/
def Call.delivers : Call → Bool
  | .acceptPartial c => c.delivery.isSome
  | _ => true

/-! ### The abstract ledger -/

/-- The outbox items a call adds: none without a delivery, else the one event it was asked for. -/
inductive Posts (id : JsString) (kind : Kind) (recipient : JsString) :
    Option Delivery → List OutboxItem → Prop
  | none : Posts id kind recipient none []
  | some {e : Event} : e.kind = kind → Posts id kind recipient (some ⟨recipient, kind, some e⟩)
      [⟨eventId kind id e, recipient, kind, e, none⟩]

/-- The record a reservation creates. -/
def Reservation.record (c : Reservation) (t : Time) (items : List OutboxItem) : Record :=
  { requester := c.requester, provider := c.provider, fingerprint := c.fingerprint,
    capability := c.capability, mode := c.mode, status := .matched, createdAt := t,
    terminalAt := none, partialSequence := 0, partialDigest := none, deliveries := items }

/-- The record a committed call may create. -/
inductive Creates : Call → Time → Record → Prop
  | reserveNeed {c : Reservation} {t : Time} {items : List OutboxItem} :
      Posts c.id .NEED c.provider c.delivery items →
      Creates (.reserveNeed c) t (c.record t items)

/-- What an item says apart from its acknowledgement. -/
def OutboxItem.pending (i : OutboxItem) : OutboxItem := { i with acknowledgedAt := none }

/-- The event a transition announces, and to whom. -/
def Transition.announces (c : Transition) (r : Record) (items : List OutboxItem) : Prop :=
  match c.toStatus with
  | .completed => Posts c.id .RESULT r.requester c.delivery items
  | .cancelled => Posts c.id .REVOKE r.provider c.delivery items
  | _ => items = []

/-- The next version of a record that a committed call may write. -/
inductive Edits : Call → Time → Record → Record → Prop
  | acceptPartial {c : Partial} {t : Time} {r : Record} {items : List OutboxItem} :
      r.status = .matched → c.sequence = r.partialSequence →
      Posts c.id .PARTIAL r.requester c.delivery items →
      (∀ i ∈ items, i.event.sequence = some c.sequence) →
      Edits (.acceptPartial c) t r { r with
        partialSequence := r.partialSequence + 1, partialDigest := c.digest,
        deliveries := r.deliveries ++ items }
  | transitionNeed {c : Transition} {t : Time} {r : Record} {items : List OutboxItem} :
      r.status = .matched → c.toStatus ≠ .matched → c.announces r items →
      Edits (.transitionNeed c) t r { r with
        status := c.toStatus, terminalAt := some t, deliveries := r.deliveries ++ items }
  | acknowledgeDelivery {c : Acknowledgement} {t : Time} {r : Record} {items : List OutboxItem} :
      items.map OutboxItem.pending = r.deliveries.map OutboxItem.pending →
      Edits (.acknowledgeDelivery c) t r { r with deliveries := items }

/-- The versions of one record under committed calls, newest first. -/
abbrev History := List (Version Call Time Record)

abbrev Abstract : History → Prop := Lineage Creates Edits

end Truyn.Ledger
