import Truyn.Ledger.Sqlite

/-! ledger:sqlite-refines | the single-host ledger implements the abstract ledger

    `Db.view` reads the record of a NEED off the two tables. A transaction that commits writes the
    next version of one record, one that the abstract ledger allows, and leaves every other record
    alone (`call_commits`); a call that answers a fault leaves the tables alone. So the versions of
    every record form a lineage, over every run of calls from any number of processes. -/

namespace Truyn.Ledger.Sqlite
open Async Cas

/-! ### The record of a NEED -/

def OutboxRow.item (e : OutboxRow) : OutboxItem :=
  ⟨e.event_id, e.recipient, e.kind, e.event_json, e.acknowledged_at⟩

/-- The outbox items of one NEED, in the order of their rows. -/
def Db.items (db : Db) (id : JsString) : List OutboxItem :=
  (db.lifecycle_outbox.filter fun e => e.request_id = id).map OutboxRow.item

def NeedRow.record (row : NeedRow) (items : List OutboxItem) : Record :=
  { requester := row.requester, provider := row.provider, fingerprint := row.fingerprint,
    capability := row.capability, mode := row.mode, status := row.status,
    createdAt := row.created_at, terminalAt := row.terminal_at,
    partialSequence := row.partial_sequence, partialDigest := row.partial_digest,
    deliveries := items }

def Db.row (db : Db) (id : JsString) : Option NeedRow :=
  db.lifecycle_needs.find? fun r => r.id = id

/-- The record that the tables hold for a NEED. -/
def Db.view (db : Db) (id : JsString) : Option Record :=
  (db.row id).map fun row => row.record (db.items id)

/-- A call that wrote the record `id`: a next version the abstract ledger allows, nothing else. -/
structure Commits (c : Call) (now : Time) (id : JsString) (db db' : Db) : Prop where
  writes : ∃ r', db'.view id = some r' ∧
    match db.view id with
    | none => Creates c now r'
    | some r => Edits c now r r'
  frame : ∀ id', id' ≠ id → db'.view id' = db.view id'

variable {db db' db₁ : Db} {f : Fault} {id : JsString} {row : NeedRow} {maxRecords : ℕ} {now : Time}
  {c : Call} {r : Reply}

/-! ### Transactions, statement by statement -/

theorem bind_ok {α β : Type} {x : Tx α} {f : α → Tx β} {b : β} :
    (x >>= f) db = .ok (b, db') ↔ ∃ a db₁, x db = .ok (a, db₁) ∧ f a db₁ = .ok (b, db') := by
  simp only [bind, StateT.bind, Except.bind]
  constructor
  · intro h
    split at h
    · cases h
    · next p hp => exact ⟨p.1, p.2, hp, h⟩
  · rintro ⟨a, db₁, hx, hf⟩
    rw [hx]
    exact hf

theorem then_of_ok {α β : Type} {x : Tx α} {f : α → Tx β} {a : α} (h : x db = .ok (a, db₁)) :
    (x >>= f) db = f a db₁ := by
  simp only [bind, StateT.bind, Except.bind, h]

theorem pure_ok {α : Type} {a b : α} :
    (pure a : Tx α) db = .ok (b, db') ↔ a = b ∧ db = db' := by
  simp [pure, StateT.pure, Except.pure]

theorem throw_ok {α : Type} {b : α} :
    ¬(throw f : Tx α) db = .ok (b, db') := by
  simp [throw, throwThe, MonadExceptOf.throw, StateT.lift, bind, Except.bind]

theorem require_ok {p : Prop} [Decidable p] {u : Unit} :
    require p f db = .ok (u, db') ↔ p ∧ db = db' := by
  unfold require
  split
  · next h => simp [pure_ok, h]
  · next h => simp [h, throw_ok]

/-- A check in front of the rest of a transaction. -/
theorem require_then {α : Type} {p : Prop} [Decidable p] {k : Unit → Tx α} :
    (require p f >>= k) db = if p then k () db else .error f := by
  unfold require
  split <;> rfl

theorem require_then_ok {α : Type} {p : Prop} [Decidable p] {k : Unit → Tx α} {r : α × Db} :
    (require p f >>= k) db = .ok r ↔ p ∧ k () db = .ok r := by
  rw [require_then]
  split <;> simp [*]

theorem oneNeed_then {α : Type} {k : Option NeedRow → Tx α} :
    (oneNeed id >>= k) db = k (db.row id) db := rfl

theorem countNeeds_then {α : Type} {k : ℕ → Tx α} :
    (countNeeds >>= k) db = k db.lifecycle_needs.length db := rfl

theorem countOutbox_then {α : Type} {k : ℕ → Tx α} :
    (countOutbox >>= k) db = k db.lifecycle_outbox.length db := rfl

variable {eventId recipient : JsString} {p : NeedRow → Bool} {n : ℕ} {e : OutboxRow} {d : Record}
  {items : List OutboxItem} {a : Except Fault Reply}

theorem oneOutbox_then {α : Type} {k : Option OutboxRow → Tx α} :
    (oneOutbox eventId >>= k) db =
      k (db.lifecycle_outbox.find? fun e => e.event_id = eventId) db := rfl

theorem row_id (h : db.row id = some row) :
    row.id = id := by
  simpa using List.find?_some h

theorem view_of_row (h : db.row id = some row) :
    db.view id = some (row.record (db.items id)) := by
  rw [Db.view, h]; rfl

theorem view_of_no_row (h : db.row id = none) : db.view id = none := by
  rw [Db.view, h]; rfl

/-- Events refer to rows, so a NEED without a row has no events. -/
theorem items_of_no_row (h : db.row id = none) : db.items id = [] := by
  rw [Db.items, List.map_eq_nil_iff, List.filter_eq_nil_iff]
  intro e he hid
  obtain ⟨r, hr, hre⟩ := List.mem_map.mp (db.request_id_references e he)
  have := List.find?_eq_none.mp h r hr
  simp only [decide_eq_true_eq] at hid this
  exact this (hre.trans hid)

theorem insertNeed_ok {u : Unit} (h : insertNeed row db = .ok (u, db')) :
    db'.row row.id = some row ∧ (∀ id, id ≠ row.id → db'.row id = db.row id) ∧
      ∀ id, db'.items id = db.items id := by
  unfold insertNeed at h
  split at h
  · cases h
  · next hn =>
    cases h
    refine ⟨?_, ?_, fun id => rfl⟩
    · have hnone : (db.lifecycle_needs.find? fun r => r.id = row.id) = none := by
        rw [List.find?_eq_none]
        intro r hr hid
        exact hn (List.mem_map.mpr ⟨r, hr, by simpa using hid⟩)
      simp [Db.row, List.find?_append, hnone]
    · intro id hid
      simp [Db.row, List.find?_append, Ne.symm hid]

theorem updateNeeds_ok {f : NeedRow → NeedRow} {hf : ∀ r, (f r).id = r.id}
    (h : updateNeeds p f hf db = .ok (n, db')) :
    (∀ id, db'.row id = (db.row id).map fun r => if p r then f r else r) ∧
      ∀ id, db'.items id = db.items id := by
  cases h
  refine ⟨fun id => ?_, fun id => rfl⟩
  simp only [Db.row, List.find?_map]
  congr 2
  funext r
  simp only [Function.comp_apply]
  split <;> simp [hf]

theorem insertOutbox_ok {u : Unit} (h : insertOutbox e db = .ok (u, db')) :
    (∀ id, db'.row id = db.row id) ∧ db'.items e.request_id = db.items e.request_id ++ [e.item] ∧
      ∀ id, id ≠ e.request_id → db'.items id = db.items id := by
  unfold insertOutbox at h
  split at h
  · cases h
    refine ⟨fun id => rfl, ?_, fun id hid => ?_⟩
    · simp [Db.items, List.filter_append]
    · simp [Db.items, List.filter_append, Ne.symm hid]
  · cases h

/-- An outbox write adds the one event it was asked for to the items of its NEED. -/
theorem persistOutbox_ok {kind : Kind} {delivery : Option Delivery} {u : Unit}
    (h : persistOutbox maxRecords id recipient kind delivery now db = .ok (u, db')) :
    ∃ items, Posts id kind recipient delivery items ∧ db'.items id = db.items id ++ items ∧
      (∀ id', db'.row id' = db.row id') ∧ ∀ id', id' ≠ id → db'.items id' = db.items id' := by
  unfold persistOutbox at h
  rcases delivery with _ | ⟨recipient', kind', _ | event⟩
  · obtain ⟨-, rfl⟩ := pure_ok.mp h
    exact ⟨[], .none, by simp, fun _ => rfl, fun _ _ => rfl⟩
  · exact absurd h throw_ok
  · simp only [require_then_ok, countOutbox_then] at h
    obtain ⟨⟨rfl, rfl, hk⟩, -, -, h⟩ := h
    obtain ⟨hrow, hitems, hframe⟩ := insertOutbox_ok h
    exact ⟨_, .some hk, hitems, hrow, hframe⟩

/-- A transition announces its status. -/
theorem persistTerminal_ok {c : Transition} {u : Unit}
    (h : persistTerminal maxRecords c row now db = .ok (u, db')) :
    ∃ items, (∀ old, c.announces (row.record old) items) ∧
      db'.items c.id = db.items c.id ++ items ∧ (∀ id', db'.row id' = db.row id') ∧
      ∀ id', id' ≠ c.id → db'.items id' = db.items id' := by
  simp only [Transition.announces]
  unfold persistTerminal at h
  cases hs : c.toStatus <;> simp only [hs] at h
  · obtain ⟨-, rfl⟩ := require_ok.mp h
    exact ⟨[], fun _ => rfl, by simp, fun _ => rfl, fun _ _ => rfl⟩
  · obtain ⟨items, hp, hrest⟩ := persistOutbox_ok h
    exact ⟨items, fun _ => hp, hrest⟩
  · obtain ⟨items, hp, hrest⟩ := persistOutbox_ok h
    exact ⟨items, fun _ => hp, hrest⟩
  · obtain ⟨-, rfl⟩ := require_ok.mp h
    exact ⟨[], fun _ => rfl, by simp, fun _ => rfl, fun _ _ => rfl⟩

/-- An accepted frame adds its own event. -/
theorem persistFrame_ok {c : Partial} {u : Unit}
    (h : persistFrame maxRecords c row now db = .ok (u, db')) :
    ∃ items, Posts c.id .PARTIAL row.requester c.delivery items ∧
      (∀ i ∈ items, i.event.sequence = some c.sequence) ∧
      db'.items c.id = db.items c.id ++ items ∧ (∀ id', db'.row id' = db.row id') ∧
      ∀ id', id' ≠ c.id → db'.items id' = db.items id' := by
  unfold persistFrame at h
  cases hd : c.delivery <;> simp only [hd] at h
  · obtain ⟨-, rfl⟩ := pure_ok.mp h
    exact ⟨[], .none, by simp, by simp, fun _ => rfl, fun _ _ => rfl⟩
  · obtain ⟨hev, h⟩ := require_then_ok.mp h
    obtain ⟨items, hp, hrest⟩ := persistOutbox_ok h
    refine ⟨items, hp, ?_, hrest⟩
    cases hp
    simp only [Option.any_some, decide_eq_true_eq] at hev
    simpa using hev.1

/-! ### Calls -/

theorem commits_of_view (hview : db'.view = Function.update db.view id (some d))
    (hstep : match db.view id with
      | none => Creates c now d
      | some r => Edits c now r d) : Commits c now id db db' := by
  refine ⟨⟨d, ?_, hstep⟩, fun id' hid => ?_⟩
  · rw [hview, Function.update_self]
  · rw [hview, Function.update_of_ne hid]

/-- Inserting a row for `id` and then adding `items` to its outbox leaves the record they make. -/
theorem view_of_insert (hno : db.row id = none) (hnew : db₁.row id = some row)
    (hframe₁ : ∀ id', id' ≠ id → db₁.row id' = db.row id')
    (hitems₁ : ∀ id', db₁.items id' = db.items id') (hitems : db'.items id = db₁.items id ++ items)
    (hrow' : ∀ id', db'.row id' = db₁.row id')
    (hframe : ∀ id', id' ≠ id → db'.items id' = db₁.items id') :
    db'.view = Function.update db.view id (some (row.record items)) := by
  funext id'
  by_cases hid : id' = id
  · subst hid
    rw [Function.update_self, Db.view, hrow', hnew, hitems, hitems₁, items_of_no_row hno]
    rfl
  · rw [Function.update_of_ne hid, Db.view, hrow', hframe₁ _ hid, hframe _ hid, hitems₁, Db.view]

/-- Updating the row of `id` and adding `items` to its outbox leaves the record they make. -/
theorem view_of_update {row' : NeedRow} {f : NeedRow → NeedRow} (hrow : db.row id = some row)
    (hp : ∀ r, p r = true → r.id = id) (hpr : p row = true) (hf : f row = row')
    (hrow₁ : ∀ id, db₁.row id = (db.row id).map fun r => if p r then f r else r)
    (hitems₁ : ∀ id, db₁.items id = db.items id) (hitems : db'.items id = db₁.items id ++ items)
    (hrow' : ∀ id', db'.row id' = db₁.row id')
    (hframe : ∀ id', id' ≠ id → db'.items id' = db₁.items id') :
    db'.view = Function.update db.view id (some (row'.record (db.items id ++ items))) := by
  funext id'
  by_cases hid : id' = id
  · subst hid
    have hr : db'.row id' = some row' := by rw [hrow', hrow₁, hrow, Option.map_some, if_pos hpr, hf]
    rw [Function.update_self, view_of_row hr, hitems, hitems₁]
  · have hr : db'.row id' = db.row id' := by
      rw [hrow', hrow₁]
      cases hd : db.row id' with
      | none => rfl
      | some r =>
        have hne : ¬p r = true := fun hpr' => hid ((row_id hd).symm.trans (hp r hpr'))
        rw [Option.map_some, if_neg hne]
    rw [Function.update_of_ne hid, Db.view, hr, hframe _ hid, hitems₁, Db.view]

theorem reserveNeed_ok {c : Reservation} (h : reserveNeed maxRecords c now db = .ok (r, db')) :
    r.wrote = true ∧ db.view c.id = none ∧ Commits (.reserveNeed c) now c.id db db' := by
  simp only [reserveNeed, oneNeed_then, countNeeds_then, require_then_ok] at h
  obtain ⟨hnone, -, h⟩ := h
  obtain ⟨_, db₅, h₅, h⟩ := bind_ok.mp h
  obtain ⟨hnew, hframe₅, hitems₅⟩ := insertNeed_ok h₅
  obtain ⟨_, db₆, h₆, h⟩ := bind_ok.mp h
  obtain ⟨items, hposts, hitems₆, hrow₆, hframe₆⟩ := persistOutbox_ok h₆
  rw [oneNeed_then, hrow₆, hnew] at h
  obtain ⟨rfl, rfl⟩ := pure_ok.mp h
  have hno : db.row c.id = none := Option.isNone_iff_eq_none.mp hnone
  refine ⟨rfl, view_of_no_row hno, commits_of_view
    (view_of_insert hno hnew hframe₅ hitems₅ hitems₆ hrow₆ hframe₆) ?_⟩
  rw [view_of_no_row hno]
  exact .reserveNeed hposts

theorem transitionNeed_ok {c : Transition} (hc : c.toStatus ≠ .matched)
    (h : transitionNeed maxRecords c now db = .ok (r, db')) :
    r.wrote = false ∧ db' = db ∨
      r.wrote = true ∧ Commits (.transitionNeed c) now c.id db db' := by
  rw [transitionNeed, oneNeed_then] at h
  cases hrow : db.row c.id with
  | none => rw [hrow] at h; exact absurd h throw_ok
  | some row =>
    simp only [hrow, require_then_ok] at h
    obtain ⟨-, -, h⟩ := h
    split at h
    · -- terminal already
      split at h
      · obtain ⟨rfl, rfl⟩ := pure_ok.mp h
        exact Or.inl ⟨rfl, rfl⟩
      · exact absurd h throw_ok
    · next hm =>
      have hm : row.status = .matched := not_not.mp hm
      obtain ⟨_, db₄, h₄, h⟩ := bind_ok.mp h
      obtain ⟨hrow₄, hitems₄⟩ := updateNeeds_ok h₄
      obtain ⟨-, h⟩ := require_then_ok.mp h
      obtain ⟨_, db₆, h₆, h⟩ := bind_ok.mp h
      obtain ⟨items, ha, hitems₆, hrow₆, hframe₆⟩ := persistTerminal_ok h₆
      rw [oneNeed_then, hrow₆, hrow₄, hrow] at h
      obtain ⟨rfl, rfl⟩ := pure_ok.mp h
      refine Or.inr ⟨rfl, commits_of_view (view_of_update hrow (fun _ hr => (of_decide_eq_true hr).1)
        (decide_eq_true ⟨row_id hrow, hm⟩) rfl hrow₄ hitems₄ hitems₆ hrow₆ hframe₆) ?_⟩
      rw [view_of_row hrow]
      exact .transitionNeed hm hc (ha _)

theorem acceptPartial_ok {c : Partial} (h : acceptPartial maxRecords c now db = .ok (r, db')) :
    r.wrote = false ∧ db' = db ∨ r.wrote = true ∧ Commits (.acceptPartial c) now c.id db db' := by
  rw [acceptPartial, oneNeed_then] at h
  cases hrow : db.row c.id with
  | none => rw [hrow] at h; exact absurd h throw_ok
  | some row =>
    simp only [hrow, require_then_ok] at h
    obtain ⟨-, hm, h⟩ := h
    split at h
    · obtain ⟨rfl, rfl⟩ := pure_ok.mp h
      exact Or.inl ⟨rfl, rfl⟩
    · obtain ⟨hseq, h⟩ := require_then_ok.mp h
      obtain ⟨_, db₅, h₅, h⟩ := bind_ok.mp h
      obtain ⟨hrow₅, hitems₅⟩ := updateNeeds_ok h₅
      obtain ⟨-, h⟩ := require_then_ok.mp h
      obtain ⟨_, db₇, h₇, h⟩ := bind_ok.mp h
      obtain ⟨rfl, rfl⟩ := pure_ok.mp h
      obtain ⟨items, hp, hs, hitems₇, hrow₇, hframe₇⟩ := persistFrame_ok h₇
      refine Or.inr ⟨rfl, commits_of_view (view_of_update hrow (fun _ hr => (of_decide_eq_true hr).1)
        (decide_eq_true ⟨row_id hrow, hm, rfl⟩) rfl hrow₅ hitems₅ hitems₇ hrow₇ hframe₇) ?_⟩
      rw [view_of_row hrow]
      exact .acceptPartial hm hseq hp hs

/-- The ids of a rewritten outbox row stay, so its NEED does. -/
theorem filter_ack (now : Time) (eventId recipient id : JsString) (rows : List OutboxRow) :
    rows.filter ((fun e => decide (e.request_id = id)) ∘ fun e =>
      if decide (e.event_id = eventId ∧ e.recipient = recipient ∧ e.acknowledged_at = none) = true
      then { e with acknowledged_at := some now } else e) =
      rows.filter fun e => decide (e.request_id = id) := by
  congr 1
  funext e
  simp only [Function.comp_apply]
  split <;> rfl

/-- Acknowledging keeps what every item says, and all items of NEEDs the event is not about. -/
theorem ackOutbox_ok (h : ackOutbox now eventId recipient db = .ok (n, db')) :
    (∀ id, db'.row id = db.row id) ∧
      (∀ id, (db'.items id).map OutboxItem.pending = (db.items id).map OutboxItem.pending) ∧
      ∀ id, (∀ e ∈ db.lifecycle_outbox, e.event_id = eventId → e.request_id ≠ id) →
        db'.items id = db.items id := by
  unfold ackOutbox at h
  cases h
  refine ⟨fun _ => rfl, fun id => ?_, fun id hid => ?_⟩
  · simp only [Db.items, List.filter_map, List.map_map, filter_ack]
    refine List.map_congr_left fun e _ => ?_
    simp only [Function.comp_apply]
    split <;> rfl
  · simp only [Db.items, List.filter_map, List.map_map, filter_ack]
    refine List.map_congr_left fun e he => ?_
    obtain ⟨hmem, hreq⟩ := List.mem_filter.mp he
    have hne : ¬(e.event_id = eventId ∧ e.recipient = recipient ∧ e.acknowledged_at = none) :=
      fun hc => hid e hmem hc.1 (of_decide_eq_true hreq)
    simp only [Function.comp_apply, decide_eq_true_eq]
    rw [if_neg hne]

/-- Events refer to rows. -/
theorem row_of_outbox (he : e ∈ db.lifecycle_outbox) :
    ∃ row, db.row e.request_id = some row := by
  rw [← Option.isSome_iff_exists, Db.row, List.find?_isSome]
  obtain ⟨n, hn, hid⟩ := List.mem_map.mp (db.request_id_references e he)
  exact ⟨n, hn, by simpa using hid⟩

/-- Acknowledging touches one row, by its primary key: the record that the row refers to. -/
theorem acknowledgeDelivery_ok {c : Acknowledgement}
    (h : acknowledgeDelivery c now db = .ok (r, db')) :
    r.wrote = false ∧ db' = db ∨ r.wrote = true ∧
      ∃ row, (db.lifecycle_outbox.find? fun e => e.event_id = c.eventId) = some row ∧
        Commits (.acknowledgeDelivery c) now row.request_id db db' := by
  rw [acknowledgeDelivery, oneOutbox_then] at h
  cases hrow : db.lifecycle_outbox.find? fun e => e.event_id = c.eventId with
  | none => rw [hrow] at h; exact absurd h throw_ok
  | some row =>
    rw [hrow] at h
    obtain ⟨-, h⟩ := require_then_ok.mp h
    split at h
    · obtain ⟨rfl, rfl⟩ := pure_ok.mp h
      exact Or.inl ⟨rfl, rfl⟩
    · obtain ⟨_, db₃, h₃, h⟩ := bind_ok.mp h
      obtain ⟨-, h⟩ := require_then_ok.mp h
      obtain ⟨rfl, rfl⟩ := pure_ok.mp h
      obtain ⟨hrows, hpend, hframe⟩ := ackOutbox_ok h₃
      have hmem := List.mem_of_find?_eq_some hrow
      have heid : row.event_id = c.eventId := by simpa using List.find?_some hrow
      obtain ⟨r, hr⟩ := row_of_outbox hmem
      refine Or.inr ⟨rfl, row, rfl, ⟨_, view_of_row (hrows _ ▸ hr), ?_⟩, fun id' hid => ?_⟩
      · rw [view_of_row hr]
        exact .acknowledgeDelivery (hpend _)
      · rw [Db.view, Db.view, hrows, hframe id' fun e he heq => ?_]
        have : e = row :=
          List.inj_on_of_nodup_map db.event_id_key he hmem (heq.trans heid.symm)
        exact this ▸ hid.symm

/-- The record a call writes to: the NEED of its event for an acknowledgement, else its own. -/
def target (db : Db) : Call → Option JsString
  | .reserveNeed c => some c.id
  | .acceptPartial c => some c.id
  | .transitionNeed c => some c.id
  | .acknowledgeDelivery c =>
    (db.lifecycle_outbox.find? fun e => e.event_id = c.eventId).map OutboxRow.request_id

/-- A call that answers a fault, or that had nothing to write, leaves the tables as they were; any
    other call writes one record, as the abstract ledger allows. -/
theorem call_commits {up : Bool} (h : call maxRecords up c now db = (a, db')) :
    ((∀ r, a = .ok r → r.wrote = false) ∧ db' = db) ∨
      (∃ r, a = .ok r ∧ r.wrote = true) ∧ ∃ id, target db c = some id ∧ Commits c now id db db' := by
  unfold call at h
  split at h
  · cases h; exact Or.inl ⟨by simp, rfl⟩
  next harg =>
  unfold transaction at h
  split at h
  · split at h
    · next r db₁ hop =>
      cases h
      have key : r.wrote = false ∧ db' = db ∨
          r.wrote = true ∧ ∃ id, target db c = some id ∧ Commits c now id db db' := by
        cases c with
        | reserveNeed c =>
          obtain ⟨hw, -, hc⟩ := reserveNeed_ok hop
          exact Or.inr ⟨hw, _, rfl, hc⟩
        | acceptPartial c =>
          exact (acceptPartial_ok hop).imp id fun ⟨hw, hc⟩ => ⟨hw, _, rfl, hc⟩
        | transitionNeed c =>
          have hne : c.toStatus ≠ .matched := fun hm => by simp [arguments, hm] at harg
          exact (transitionNeed_ok hne hop).imp id fun ⟨hw, hc⟩ => ⟨hw, _, rfl, hc⟩
        | acknowledgeDelivery c =>
          refine (acknowledgeDelivery_ok hop).imp id fun ⟨hw, row, hrow, hc⟩ => ⟨hw, _, ?_, hc⟩
          rw [target, hrow]; rfl
      rcases key with ⟨hw, rfl⟩ | ⟨hw, hid⟩
      · exact Or.inl ⟨fun r' hr' => by cases hr'; exact hw, rfl⟩
      · exact Or.inr ⟨⟨r, rfl, hw⟩, hid⟩
    · cases h; exact Or.inl ⟨by simp, rfl⟩
  · cases h; exact Or.inl ⟨by simp, rfl⟩

/-! ### Processes -/

/-- How a call ends: answered, not executed at all, or committed by a process that dies before it
    can answer. -/
inductive Fate | answered | unavailable | lost
  deriving DecidableEq

/-- The tables, the versions of every record so far, and the answers given (latest first). -/
structure World where
  db : Db
  history : JsString → History
  answers : List (Call × Except Fault Reply)

/-- The history after a call: one more version of the record it wrote. -/
def World.record (w : World) (c : Call) (now : Time) (a : Except Fault Reply) (db' : Db) :
    JsString → History :=
  match a with
  | .ok r =>
    if r.wrote then
      match target w.db c with
      | some id =>
        match db'.view id with
        | some d => Function.update w.history id (⟨c, now, d⟩ :: w.history id)
        | none => w.history
      | none => w.history
    else w.history
  | .error _ => w.history

/-- Any process runs a call; transactions are atomic, so calls happen one after another. -/
def machine (maxRecords : ℕ) : Machine World Empty (Call × Time × Fate) := fun w _ e =>
  let result := call maxRecords (e.2.2 ≠ .unavailable) e.1 e.2.1 w.db
  some (⟨result.2, w.record e.1 e.2.1 result.1 result.2,
    if e.2.2 = .lost then w.answers else (e.1, result.1) :: w.answers⟩, [])

def init : Sys World Empty := ⟨⟨.empty, fun _ => [], []⟩, []⟩

/-- The tables hold the newest version of every record, and its versions form a lineage. -/
structure Consistent (w : World) : Prop where
  newest : ∀ id, w.db.view id = (w.history id).head?.map Version.doc
  lineage : ∀ id, Abstract (w.history id)

/-- No version is ever lost. -/
def Grows (w w' : World) : Prop := ∀ id, w.history id <:+ w'.history id

variable {w : World}

theorem Commits.next (h : Commits c now id w.db db') (hd : db'.view id = some d) (hw : Consistent w)
    :
    Abstract (⟨c, now, d⟩ :: w.history id) := by
  obtain ⟨r', hr', hstep⟩ := h.writes
  obtain rfl : r' = d := Option.some.inj (hr'.symm.trans hd)
  rw [hw.newest id] at hstep
  have hl := hw.lineage id
  cases hh : w.history id with
  | nil => rw [hh] at hstep; exact .create hstep
  | cons v l => rw [hh] at hstep hl; exact .edit hl hstep

theorem record_of_no_write (h : ∀ r, a = .ok r → r.wrote = false) :
    w.record c now a db' = w.history := by
  unfold World.record
  split
  · next r => rw [if_neg (by simp [h r rfl])]
  · rfl

theorem record_of_write {w : World} {c : Call} {now : Time} {r : Reply} {db' : Db} {id : JsString}
    {d : Record} (hr : r.wrote = true) (ht : target w.db c = some id)
    (hd : db'.view id = some d) :
    w.record c now (.ok r) db' = Function.update w.history id (⟨c, now, d⟩ :: w.history id) := by
  simp only [World.record, hr, if_true, ht, hd]

/-- Every call keeps the tables consistent with the history. -/
theorem machine_consistent {w' : World} {t : Option Empty} {e : Call × Time × Fate}
    {ts : List Empty} (hw : Consistent w) (h : machine maxRecords w t e = some (w', ts)) :
    Consistent w' ∧ Grows w w' := by
  simp only [machine, Option.some.injEq, Prod.mk.injEq] at h
  obtain ⟨rfl, -⟩ := h
  generalize hr : call maxRecords (decide (e.2.2 ≠ .unavailable)) e.1 e.2.1 w.db = result
  obtain ⟨a, db'⟩ := result
  rcases call_commits hr with ⟨hno, rfl⟩ | ⟨⟨r, rfl, hwrote⟩, id, htarget, hc⟩
  · -- nothing written
    have hh : w.record e.1 e.2.1 a w.db = w.history := record_of_no_write hno
    simp only [hh]
    exact ⟨⟨hw.newest, hw.lineage⟩, fun _ => List.suffix_rfl⟩
  · obtain ⟨d, hd, -⟩ := hc.writes
    have hh := @record_of_write w e.1 e.2.1 r db' id d hwrote htarget hd
    refine ⟨⟨fun id' => ?_, fun id' => ?_⟩, fun id' => ?_⟩ <;> simp only [hh]
    · by_cases hid : id' = id
      · subst hid; rw [Function.update_self]; exact hd
      · rw [Function.update_of_ne hid, hc.frame _ hid]; exact hw.newest id'
    · by_cases hid : id' = id
      · subst hid; rw [Function.update_self]; exact hc.next hd hw
      · rw [Function.update_of_ne hid]; exact hw.lineage id'
    · by_cases hid : id' = id
      · subst hid; rw [Function.update_self]; exact List.suffix_cons _ _
      · rw [Function.update_of_ne hid]

theorem machine_sound (maxRecords : ℕ) :
    Sound (machine maxRecords) free Consistent (fun _ _ => True) Grows where
  react := by
    intro w t e w' ts hw _ _ h
    obtain ⟨hw', hg⟩ := machine_consistent hw h
    exact ⟨hw', hg, fun _ _ => trivial⟩
  stable := fun _ _ _ _ _ _ => trivial

theorem init_holds : Holds Consistent (fun _ _ => True) init :=
  ⟨⟨fun _ => rfl, fun _ => .nil⟩, by simp [init]⟩

end Truyn.Ledger.Sqlite
