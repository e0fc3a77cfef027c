import Truyn.Ledger.Safety

/-! ledger:sqlite | the single-host ledger: two tables and one transaction for each call

    Every call checks its arguments and then runs as one transaction on the tables
    `lifecycle_needs` and `lifecycle_outbox`. A fault raised in the middle, like a statement or a
    COMMIT that fails, rolls the tables back. The schema's keys are fields of `Db`.

        call ──▶ arguments ──▶ BEGIN ──▶ rows ──▶ outbox row ──▶ COMMIT
                    │ 400                  │ 4xx        │ 4xx/503     │ 503
                    └──────────────────────┴────────────┴─────────────┴──▶ tables unchanged -/

namespace Truyn.Ledger.Sqlite
open Async Cas

structure NeedRow where
  id : JsString
  requester : JsString
  provider : JsString
  fingerprint : JsString
  capability : JsString
  mode : JsString
  status : NeedStatus
  created_at : Time
  terminal_at : Option Time
  partial_sequence : ℕ
  partial_digest : Option JsString

/-- A row of the outbox; `event_json` is the event whose JSON text is stored. -/
structure OutboxRow where
  event_id : JsString
  request_id : JsString
  recipient : JsString
  kind : Kind
  event_json : Event
  created_at : Time
  acknowledged_at : Option Time

/-- The two tables, with the keys that the schema declares for the outbox. -/
structure Db where
  lifecycle_needs : List NeedRow
  lifecycle_outbox : List OutboxRow
  event_id_key : (lifecycle_outbox.map OutboxRow.event_id).Nodup
  request_id_references : ∀ e ∈ lifecycle_outbox, e.request_id ∈ lifecycle_needs.map NeedRow.id

/-- Fresh tables. -/
def Db.empty : Db := ⟨[], [], by simp, by simp⟩

/-- What a call returns to its caller. -/
inductive Reply
  | reserved (row : NeedRow)
  | partialAccepted (idempotent : Bool) (previousDigest : Option JsString)
  | transitioned (changed : Bool) (row : NeedRow)
  | acknowledged (idempotent : Bool)

/-- The call behind the reply wrote to the tables. -/
def Reply.wrote : Reply → Bool
  | .reserved _ => true
  | .partialAccepted idempotent _ => !idempotent
  | .transitioned changed _ => changed
  | .acknowledged idempotent => !idempotent

def unavailable : Fault := ⟨503, "lifecycle_ledger_unavailable"⟩

/-- Statements of a transaction. -/
abbrev Tx := StateT Db (Except Fault)

/-- Go on if `p` holds, else throw. -/
def require (p : Prop) [Decidable p] (f : Fault) : Tx Unit := if p then pure () else throw f

/-! ### Prepared statements -/

def oneNeed (id : JsString) : Tx (Option NeedRow) := fun db =>
  .ok (db.lifecycle_needs.find? fun r => r.id = id, db)

def countNeeds : Tx ℕ := fun db => .ok (db.lifecycle_needs.length, db)

/-- A second row with the same primary key is a statement error. -/
def insertNeed (row : NeedRow) : Tx Unit := fun db =>
  if row.id ∈ db.lifecycle_needs.map NeedRow.id then .error unavailable
  else .ok ((), { db with
    lifecycle_needs := db.lifecycle_needs ++ [row]
    request_id_references := fun e he => by
      rw [List.map_append]
      exact List.mem_append_left _ (db.request_id_references e he) })

/-- Update the rows that satisfy `p`, and count them; primary keys stay as they are. -/
def updateNeeds (p : NeedRow → Bool) (f : NeedRow → NeedRow) (hf : ∀ r, (f r).id = r.id) :
    Tx ℕ := fun db =>
  .ok (db.lifecycle_needs.countP p, { db with
    lifecycle_needs := db.lifecycle_needs.map fun r => if p r then f r else r
    request_id_references := fun e he => by
      obtain ⟨r, hr, hid⟩ := List.mem_map.mp (db.request_id_references e he)
      refine List.mem_map.mpr ⟨if p r then f r else r, List.mem_map_of_mem hr, ?_⟩
      split
      · rw [hf, hid]
      · exact hid })

def updateNeed (status : NeedStatus) (terminal_at : Time) (id : JsString) : Tx ℕ :=
  updateNeeds (fun r => r.id = id ∧ r.status = .matched)
    (fun r => { r with status := status, terminal_at := some terminal_at }) fun _ => rfl

def updatePartial (sequence : ℕ) (digest : Option JsString) (id : JsString) (expected : ℕ) :
    Tx ℕ :=
  updateNeeds (fun r => r.id = id ∧ r.status = .matched ∧ r.partial_sequence = expected)
    (fun r => { r with partial_sequence := sequence, partial_digest := digest }) fun _ => rfl

def countOutbox : Tx ℕ := fun db => .ok (db.lifecycle_outbox.length, db)

def oneOutbox (eventId : JsString) : Tx (Option OutboxRow) := fun db =>
  .ok (db.lifecycle_outbox.find? fun e => e.event_id = eventId, db)

/-- A second row with the same primary key, or one that refers to no NEED, is a statement error. -/
def insertOutbox (row : OutboxRow) : Tx Unit := fun db =>
  if h : row.event_id ∉ db.lifecycle_outbox.map OutboxRow.event_id ∧
      row.request_id ∈ db.lifecycle_needs.map NeedRow.id then
    .ok ((), { db with
      lifecycle_outbox := db.lifecycle_outbox ++ [row]
      event_id_key := by
        rw [List.map_append]
        exact List.nodup_append'.mpr ⟨db.event_id_key, by simp, by simpa using h.1⟩
      request_id_references := by
        intro e he
        rcases List.mem_append.mp he with he | he
        · exact db.request_id_references e he
        · rw [List.mem_singleton.mp he]; exact h.2 })
  else .error unavailable

def ackOutbox (now : Time) (eventId recipient : JsString) : Tx ℕ := fun db =>
  let hit := fun e : OutboxRow =>
    decide (e.event_id = eventId ∧ e.recipient = recipient ∧ e.acknowledged_at = none)
  .ok (db.lifecycle_outbox.countP hit, { db with
    lifecycle_outbox := db.lifecycle_outbox.map fun e =>
      if hit e then { e with acknowledged_at := some now } else e
    event_id_key := by
      rw [List.map_map]
      convert db.event_id_key using 2
      funext e
      simp only [Function.comp_apply]
      split <;> rfl
    request_id_references := by
      intro e he
      obtain ⟨e', he', rfl⟩ := List.mem_map.mp he
      have := db.request_id_references e' he'
      split <;> exact this })

/-! ### Calls -/

def invalidDelivery : Fault := ⟨400, "invalid_lifecycle_delivery"⟩

def persistOutbox (maxRecords : ℕ) (requestId expectedRecipient : JsString) (expectedKind : Kind)
    (delivery : Option Delivery) (now : Time) : Tx Unit :=
  match delivery with
  | none => pure ()
  | some d =>
    match d.event with
    | none => throw invalidDelivery
    | some event => do
      require (d.recipient = expectedRecipient ∧ d.kind = expectedKind ∧ event.kind = d.kind)
        invalidDelivery
      require (event.json.length ≤ 1024 * 1024) ⟨413, "lifecycle_delivery_too_large"⟩
      let count ← countOutbox
      require (count < maxRecords * 8) ⟨503, "lifecycle_outbox_capacity_reached"⟩
      insertOutbox ⟨eventId d.kind requestId event, requestId, d.recipient, d.kind, event, now, none⟩

/-- One transaction: `up` is false when BEGIN, a statement or COMMIT fails. -/
def transaction {α : Type} (up : Bool) (operation : Tx α) (db : Db) : Except Fault α × Db :=
  if up then
    match operation db with
    | .ok (a, db') => (.ok a, db')
    | .error f => (.error f, db)
  else (.error unavailable, db)

def acknowledgeDelivery (c : Acknowledgement) (now : Time) : Tx Reply := do
  let row ← oneOutbox c.eventId
  match row with
  | none => throw ⟨404, "delivery_not_found"⟩
  | some row => do
    require (row.recipient = c.recipient) ⟨404, "delivery_not_found"⟩
    if row.acknowledged_at.isSome then pure (.acknowledged true)
    else do
      let changes ← ackOutbox now c.eventId c.recipient
      require (changes = 1) ⟨409, "delivery_ack_conflict"⟩
      pure (.acknowledged false)

def reserveNeed (maxRecords : ℕ) (c : Reservation) (now : Time) : Tx Reply := do
  let row ← oneNeed c.id
  require (row.isNone) ⟨409, "duplicate_request"⟩
  let count ← countNeeds
  require (count < maxRecords) ⟨503, "need_idempotency_capacity_reached"⟩
  insertNeed ⟨c.id, c.requester, c.provider, c.fingerprint, c.capability, c.mode, .matched, now,
    none, 0, none⟩
  persistOutbox maxRecords c.id c.provider .NEED c.delivery now
  let row ← oneNeed c.id
  match row with
  | none => throw unavailable
  | some row => pure (.reserved row)

/-- The outbox write of a transition, by the status it goes to. -/
def persistTerminal (maxRecords : ℕ) (c : Transition) (row : NeedRow) (now : Time) : Tx Unit :=
  match c.toStatus with
  | .completed => persistOutbox maxRecords c.id row.requester .RESULT c.delivery now
  | .cancelled => persistOutbox maxRecords c.id row.provider .REVOKE c.delivery now
  | _ => require (c.delivery = none) invalidDelivery

def transitionNeed (maxRecords : ℕ) (c : Transition) (now : Time) : Tx Reply := do
  let row ← oneNeed c.id
  match row with
  | none => throw ⟨404, "request_not_found"⟩
  | some row => do
    require (Party c.requester row.requester) ⟨403, "not_request_owner"⟩
    require (Party c.provider row.provider) ⟨403, "provider_mismatch"⟩
    if row.status ≠ .matched then
      if c.toStatus = .cancelled ∧ row.status = .cancelled then pure (.transitioned false row)
      else throw (terminalFault row.status)
    else do
      let changes ← updateNeed c.toStatus now c.id
      require (changes = 1) ⟨409, "lifecycle_conflict"⟩
      persistTerminal maxRecords c row now
      let row ← oneNeed c.id
      match row with
      | none => throw unavailable
      | some row => pure (.transitioned true row)

/-- The outbox write of an accepted frame. -/
def persistFrame (maxRecords : ℕ) (c : Partial) (row : NeedRow) (now : Time) : Tx Unit :=
  match c.delivery with
  | none => pure ()
  | some d => do
    require (d.event.any fun e => e.sequence = some c.sequence ∧ e.requestId = some c.id)
      ⟨400, "invalid_partial_delivery"⟩
    persistOutbox maxRecords c.id row.requester .PARTIAL (some d) now

def acceptPartial (maxRecords : ℕ) (c : Partial) (now : Time) : Tx Reply := do
  let row ← oneNeed c.id
  match row with
  | none => throw ⟨404, "request_not_found"⟩
  | some row => do
    require (row.provider = c.provider) ⟨403, "provider_mismatch"⟩
    require (row.status = .matched) (terminalFault row.status)
    if c.sequence = (row.partial_sequence : ℤ) - 1 ∧ c.digest = row.partial_digest then
      pure (.partialAccepted true none)
    else do
      require (c.sequence = row.partial_sequence) ⟨409, "partial_sequence_mismatch"⟩
      let changes ← updatePartial (row.partial_sequence + 1) c.digest c.id row.partial_sequence
      require (changes = 1) ⟨409, "partial_sequence_mismatch"⟩
      persistFrame maxRecords c row now
      pure (.partialAccepted false row.partial_digest)

/-- The checks that a call makes on its arguments before its transaction. -/
def arguments : Call → Except Fault Unit
  | .acknowledgeDelivery c =>
    if c.eventId = [] ∨ c.recipient = [] then .error ⟨400, "invalid_delivery_ack"⟩ else .ok ()
  | .reserveNeed c =>
    if [c.id, c.requester, c.provider, c.fingerprint, c.capability, c.mode].all (· ≠ []) then .ok ()
    else .error ⟨400, "invalid_lifecycle_reservation"⟩
  | .transitionNeed c =>
    if c.toStatus = .matched then .error ⟨400, "invalid_lifecycle_transition"⟩ else .ok ()
  | .acceptPartial c =>
    if !isSafeInteger c.sequence ∨ c.sequence < 0 then .error ⟨400, "invalid_partial_sequence"⟩
    else .ok ()

/-- The transaction of a call. -/
def operation (maxRecords : ℕ) (now : Time) : Call → Tx Reply
  | .acknowledgeDelivery c => acknowledgeDelivery c now
  | .reserveNeed c => reserveNeed maxRecords c now
  | .transitionNeed c => transitionNeed maxRecords c now
  | .acceptPartial c => acceptPartial maxRecords c now

/-- A call on the ledger: its reply and the tables after it. -/
def call (maxRecords : ℕ) (up : Bool) (c : Call) (now : Time) (db : Db) : Except Fault Reply × Db :=
  match arguments c with
  | .error f => (.error f, db)
  | .ok () => transaction up (operation maxRecords now c) db

end Truyn.Ledger.Sqlite
