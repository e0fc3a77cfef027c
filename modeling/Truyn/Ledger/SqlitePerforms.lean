import Truyn.Ledger.Proper
import Truyn.Ledger.SqliteRefines

/-! ledger:sqlite-performs | the single-host ledger does what a call on its record is to do

    `perform` says what a call does to the record of its NEED. While the tables hold proper records
    and there is room, a transaction answers what `perform` answers, and leaves the record that
    `perform` writes and no other (`call_obeys`). -/

namespace Truyn.Ledger
open Cosmos (validNeedId nonempty)

/-- The fault says that there is no more room. -/
def Fault.full (f : Fault) : Bool :=
  f.code ∈ ["need_idempotency_capacity_reached", "effect_idempotency_capacity_reached",
    "lifecycle_outbox_capacity_reached", "lifecycle_delivery_too_large",
    "lifecycle_document_capacity_reached"]

/-- The records of a ledger by NEED id. -/
abbrev View := JsString → Option Record

/-- A ledger that answers `out` and goes from `v` to `v'` does what `told` says about NEED `id`;
    only for lack of room it may refuse more. -/
def Obeys (told : Except Fault (Answer × Option Record)) (id : JsString) (v : View)
    (out : Except Fault Answer) (v' : View) : Prop :=
  match out, told with
  | .error _, .error _ => v' = v
  | .error f, .ok _ => f.full = true ∧ v' = v
  | .ok a, .ok (b, none) => a = b ∧ v' = v
  | .ok a, .ok (b, some r) => a = b ∧ v' = Function.update v id (some r)
  | .ok _, .error _ => False

/-- What a delivery posts, `post` computes. -/
theorem post_of_posts {id recipient : JsString} {kind : Kind} {d : Option Delivery}
    {items : List OutboxItem} (h : Posts id kind recipient d items) :
    post id kind recipient d = .ok items := by
  cases h with
  | none => rfl
  | some hk => simp [post, hk]

namespace Sqlite

/-- What a reply says. -/
def Reply.answer : Reply → Answer
  | .reserved _ => .reserved
  | .partialAccepted idempotent _ => .accepted idempotent
  | .transitioned changed _ => .transitioned changed
  | .acknowledged idempotent => .acknowledged idempotent

/-- The tables hold proper records, each NEED in one row. -/
structure Tidy (db : Db) : Prop where
  key : (db.lifecycle_needs.map NeedRow.id).Nodup
  proper : ∀ id r, db.view id = some r → Proper id r

variable {id recipient eventId : JsString} {db db' : Db} {maxRecords n : ℕ} {f : Fault}
  {row : NeedRow} {i : OutboxItem} {now : Time} {d : Record} {c : Transition}

variable {e : Fault} {p : NeedRow → Bool} {kind : Kind} {delivery : Option Delivery}
  {old : List OutboxItem}

/-! ### Statements -/

theorem then_of_error {α β : Type} {x : Tx α} {f : α → Tx β} (h : x db = .error e) :
    (x >>= f) db = .error e := by
  simp only [bind, StateT.bind, Except.bind, h]

theorem not_of_require {p : Prop} [Decidable p] (h : require p f db = .error e) :
    ¬p := by
  intro hp
  rw [require, if_pos hp] at h
  cases h

/-- A row is the only one with its id. -/
theorem countP_row (hk : (db.lifecycle_needs.map NeedRow.id).Nodup) (hrow : db.row id = some row)
    (hp : ∀ r, p r = true → r.id = id) (hpr : p row = true) :
    db.lifecycle_needs.countP p = 1 := by
  have hmem : row ∈ db.lifecycle_needs := List.mem_of_find?_eq_some hrow
  have hid := row_id hrow
  have hfilter : db.lifecycle_needs.filter p = [row] := by
    have hnodup : db.lifecycle_needs.Nodup := List.Nodup.of_map _ hk
    refine List.perm_singleton.mp ?_
    refine (List.perm_ext_iff_of_nodup (hnodup.filter _) (List.nodup_singleton _)).mpr ?_
    intro r
    rw [List.mem_filter, List.mem_singleton]
    constructor
    · rintro ⟨hr, hpr'⟩
      exact List.inj_on_of_nodup_map hk hr hmem ((hp r hpr').trans hid.symm)
    · rintro rfl
      exact ⟨hmem, hpr⟩
  rw [List.countP_eq_length_filter, hfilter]
  rfl

/-- The event of a proper record names its NEED. -/
theorem needOfEvent_item {r : Record} (hp : Proper id r) (hi : i ∈ r.deliveries) :
    Cosmos.needOfEvent i.eventId = .ok id := by
  obtain ⟨hids, hnamed⟩ := hp.ids _ hi
  rw [hids]
  exact needOfEvent_eventId (nonempty_of_validNeedId hp.need) hnamed

/-- An event of no record is in no row of the outbox. -/
theorem notMem_outbox (ht : Tidy db) (hneed : Cosmos.needOfEvent i.eventId = .ok id)
    (hnew : ∀ j ∈ db.items id, j.eventId ≠ i.eventId) :
    i.eventId ∉ db.lifecycle_outbox.map OutboxRow.event_id := by
  intro hmem
  obtain ⟨e, he, heid⟩ := List.mem_map.mp hmem
  obtain ⟨row, hrow⟩ := row_of_outbox he
  have hitem : e.item ∈ db.items e.request_id :=
    List.mem_map_of_mem (List.mem_filter.mpr ⟨he, by simp⟩)
  have hparse := needOfEvent_item (ht.proper _ _ (view_of_row hrow)) hitem
  change Cosmos.needOfEvent e.event_id = _ at hparse
  rw [heid, hneed] at hparse
  have hid : id = e.request_id := Except.ok.inj hparse
  exact hnew _ (hid ▸ hitem) heid

/-- An outbox write fails only if the delivery is invalid, or for lack of room. -/
theorem persistOutbox_error (hneed : id ∈ db.lifecycle_needs.map NeedRow.id)
    (hnew : ∀ items, post id kind recipient delivery = .ok items →
      ∀ i ∈ items, i.eventId ∉ db.lifecycle_outbox.map OutboxRow.event_id)
    (h : persistOutbox maxRecords id recipient kind delivery now db = .error f) :
    f.full = true ∨ ∃ g, post id kind recipient delivery = .error g := by
  rcases delivery with _ | ⟨recipient', kind', _ | event⟩
  · cases h
  · exact .inr ⟨_, rfl⟩
  simp only [persistOutbox, require_then, countOutbox_then] at h
  split_ifs at h with hc
  · obtain ⟨rfl, rfl, hk⟩ := hc
    have hpost := @post_of_posts id recipient' _ _ _ (Posts.some hk)
    rw [insertOutbox, dif_pos ⟨hnew _ hpost _ (List.mem_singleton.mpr rfl), hneed⟩] at h
    cases h
  · cases h
    exact .inl (by decide)
  · cases h
    exact .inl (by decide)
  · refine .inr ⟨⟨400, "invalid_lifecycle_delivery"⟩, ?_⟩
    rw [post, if_neg]
    rintro ⟨rfl, rfl, hk⟩
    exact hc ⟨rfl, rfl, hk⟩

/-! ### Transactions -/

/-- A transaction does what `told` says about the record `id`, and keeps one row for each NEED. -/
def Follows (told : Except Fault (Answer × Option Record)) (id : JsString) (db : Db)
    (result : Except Fault (Reply × Db)) : Prop :=
  match result with
  | .error f => f.full = true ∨ ∃ g, told = .error g
  | .ok (r, db') => told = .ok (r.answer, none) ∧ db' = db ∨
      ∃ d, told = .ok (r.answer, some d) ∧ db'.view = Function.update db.view id (some d) ∧
        (db'.lifecycle_needs.map NeedRow.id).Nodup

/-- No statement of an outbox write touches the rows of NEEDs. -/
theorem persistOutbox_needs {u : Unit}
    (h : persistOutbox maxRecords id recipient kind delivery now db = .ok (u, db')) :
    db'.lifecycle_needs = db.lifecycle_needs := by
  unfold persistOutbox at h
  rcases delivery with _ | ⟨recipient', kind', _ | event⟩
  · obtain ⟨-, rfl⟩ := pure_ok.mp h
    rfl
  · exact absurd h throw_ok
  · simp only [require_then_ok, countOutbox_then] at h
    obtain ⟨-, -, -, h⟩ := h
    unfold insertOutbox at h
    split at h
    · cases h
      rfl
    · cases h

theorem mem_needs_of_row (h : db.row id = some row) :
    id ∈ db.lifecycle_needs.map NeedRow.id :=
  List.mem_map.mpr ⟨row, List.mem_of_find?_eq_some h, row_id h⟩

/-- The event that a first delivery posts is in no row yet. -/
theorem new_of_create (ht : Tidy db) (hp : Proper id d) (hno : db.row id = none) :
    ∀ i ∈ d.deliveries, i.eventId ∉ db.lifecycle_outbox.map OutboxRow.event_id := by
  intro i hi
  refine notMem_outbox ht (needOfEvent_item hp hi) fun j hj => ?_
  rw [items_of_no_row hno] at hj
  cases hj

theorem reserveNeed_follows {c : Reservation} (ht : Tidy db) (hv : (Call.reserveNeed c).Valid) :
    Follows (exec (.reserveNeed c) now (db.view c.id)) c.id db (reserveNeed maxRecords c now db) := by
  simp only [reserveNeed, oneNeed_then, countNeeds_then, require_then]
  cases hrow : db.row c.id with
  | some row =>
    -- there is such a NEED already
    rw [view_of_row hrow]
    exact .inr ⟨⟨409, "duplicate_request"⟩, rfl⟩
  | none =>
    rw [view_of_no_row hrow, if_pos (show (none : Option NeedRow).isNone = true from rfl)]
    split
    swap
    · exact .inl (by decide)
    have hid : c.id ∉ db.lifecycle_needs.map NeedRow.id := by
      intro hmem
      obtain ⟨row, hmem, hid⟩ := List.mem_map.mp hmem
      exact absurd hid (by simpa using List.find?_eq_none.mp hrow row hmem)
    obtain ⟨db₅, h₅⟩ : ∃ db₅, insertNeed ⟨c.id, c.requester, c.provider, c.fingerprint,
        c.capability, c.mode, .matched, now, none, 0, none⟩ db = .ok ((), db₅) := ⟨_, if_neg hid⟩
    obtain ⟨hnew, hframe₅, hitems₅⟩ := insertNeed_ok h₅
    rw [then_of_ok h₅]
    rw [insertNeed, if_neg hid] at h₅
    cases h₆ : persistOutbox maxRecords c.id c.provider .NEED c.delivery now db₅ with
    | error f =>
      rw [then_of_error h₆]
      refine (persistOutbox_error (mem_needs_of_row hnew) ?_ h₆).imp id ?_
      · intro items hitems
        have hcr : Creates (.reserveNeed c) now (c.record now items) :=
          .reserveNeed (posts_of_post hitems)
        cases h₅
        exact new_of_create ht (proper_create [] hv hcr) hrow
      · rintro ⟨g, hg⟩
        exact ⟨g, by rw [exec, execReserve, hg]; rfl⟩
    | ok p =>
      obtain ⟨u, db₆⟩ := p
      obtain ⟨items, hposts, hitems₆, hrow₆, hframe₆⟩ := persistOutbox_ok h₆
      rw [then_of_ok h₆, oneNeed_then, hrow₆, hnew]
      refine .inr ⟨c.record now items, ?_,
        view_of_insert hrow hnew hframe₅ hitems₅ hitems₆ hrow₆ hframe₆, ?_⟩
      · rw [exec, execReserve, post_of_posts hposts]
        rfl
      · rw [persistOutbox_needs h₆]
        cases h₅
        rw [List.map_append, List.nodup_append']
        exact ⟨ht.key, by simp, by simpa using hid⟩

/-- The events that a call adds to a record are in no row yet. -/
theorem new_of_edit {items : List OutboxItem} (ht : Tidy db) (hp : Proper id d)
    (hd : d.deliveries = db.items id ++ items) :
    ∀ i ∈ items, i.eventId ∉ db.lifecycle_outbox.map OutboxRow.event_id := by
  intro i hi
  have hkeys := hp.keys
  rw [hd, List.map_append, List.nodup_append'] at hkeys
  have hparse := needOfEvent_item hp (hd ▸ List.mem_append_right _ hi)
  refine notMem_outbox ht hparse fun j hj heq => ?_
  exact hkeys.2.2 (List.mem_map_of_mem hj) (heq ▸ List.mem_map_of_mem hi)

/-- A transition's outbox write fails only if `postTerminal` does, or for lack of room. -/
theorem persistTerminal_error (old : List OutboxItem)
    (hneed : c.id ∈ db.lifecycle_needs.map NeedRow.id)
    (hnew : ∀ items, postTerminal c (row.record old) = .ok items →
      ∀ i ∈ items, i.eventId ∉ db.lifecycle_outbox.map OutboxRow.event_id)
    (h : persistTerminal maxRecords c row now db = .error f) :
    f.full = true ∨ ∃ g, postTerminal c (row.record old) = .error g := by
  unfold persistTerminal at h
  unfold postTerminal at hnew ⊢
  cases hs : c.toStatus <;> simp only [hs] at h hnew ⊢
  · exact .inr ⟨_, if_neg (not_of_require h)⟩
  · exact persistOutbox_error hneed hnew h
  · exact persistOutbox_error hneed hnew h
  · exact .inr ⟨_, if_neg (not_of_require h)⟩

/-- What a transition posts is what it announces. -/
theorem postTerminal_of_ok {u : Unit} (old : List OutboxItem)
    (h : persistTerminal maxRecords c row now db = .ok (u, db')) :
    ∃ items, postTerminal c (row.record old) = .ok items ∧
      db'.items c.id = db.items c.id ++ items ∧ (∀ id', db'.row id' = db.row id') ∧
      (∀ id', id' ≠ c.id → db'.items id' = db.items id') ∧
      db'.lifecycle_needs = db.lifecycle_needs := by
  obtain ⟨items, ha, hitems, hrow, hframe⟩ := persistTerminal_ok h
  have hann := ha old
  refine ⟨items, ?_, hitems, hrow, hframe, ?_⟩
  · unfold persistTerminal at h
    unfold Transition.announces at hann
    unfold postTerminal
    cases hs : c.toStatus <;> simp only [hs] at h hann ⊢
    · obtain ⟨hd, -⟩ := require_ok.mp h
      rw [if_pos hd, hann]
    · exact post_of_posts hann
    · exact post_of_posts hann
    · obtain ⟨hd, -⟩ := require_ok.mp h
      rw [if_pos hd, hann]
  · unfold persistTerminal at h
    cases hs : c.toStatus <;> simp only [hs] at h
    · obtain ⟨-, rfl⟩ := require_ok.mp h
      rfl
    · exact persistOutbox_needs h
    · exact persistOutbox_needs h
    · obtain ⟨-, rfl⟩ := require_ok.mp h
      rfl

theorem updateNeeds_keys {f : NeedRow → NeedRow} {hf : ∀ r, (f r).id = r.id}
    (h : updateNeeds p f hf db = .ok (n, db')) :
    n = db.lifecycle_needs.countP p ∧ db'.lifecycle_outbox = db.lifecycle_outbox ∧
      db'.lifecycle_needs.map NeedRow.id = db.lifecycle_needs.map NeedRow.id := by
  cases h
  refine ⟨rfl, rfl, ?_⟩
  rw [List.map_map]
  refine List.map_congr_left fun r _ => ?_
  simp only [Function.comp_apply]
  split
  · exact hf r
  · rfl

/-- A transition by the recorded parties. -/
theorem execTransition_parties (hto : c.toStatus ≠ .matched)
    (hreq : Party c.requester row.requester) (hprov : Party c.provider row.provider) :
    execTransition c now (row.record old) =
      if row.status ≠ .matched then
        if c.toStatus = .cancelled ∧ row.status = .cancelled then .ok (.transitioned false, none)
        else .error (terminalFault row.status)
      else (postTerminal c (row.record old)).map fun items =>
        (.transitioned true, some { row.record old with
          status := c.toStatus, terminalAt := some now, deliveries := old ++ items }) := by
  have hreq' : Party c.requester (row.record old).requester := hreq
  have hprov' : Party c.provider (row.record old).provider := hprov
  rw [execTransition, if_neg hto, if_neg (not_not.mpr hreq'), if_neg (not_not.mpr hprov')]
  rfl

theorem transitionNeed_follows (ht : Tidy db) (hto : c.toStatus ≠ .matched) :
    Follows (exec (.transitionNeed c) now (db.view c.id)) c.id db
      (transitionNeed maxRecords c now db) := by
  rw [transitionNeed, oneNeed_then]
  cases hrow : db.row c.id with
  | none => exact .inr ⟨_, by rw [view_of_no_row hrow]; rfl⟩
  | some row =>
    simp only [require_then]
    rw [view_of_row hrow, exec]
    split
    swap
    · next hreq =>
      have hreq' : ¬Party c.requester (row.record (db.items c.id)).requester := hreq
      exact .inr ⟨_, by rw [execTransition, if_neg hto, if_pos hreq']⟩
    next hreq =>
    split
    swap
    · next hprov =>
      have hreq' : Party c.requester (row.record (db.items c.id)).requester := hreq
      have hprov' : ¬Party c.provider (row.record (db.items c.id)).provider := hprov
      exact .inr ⟨_, by rw [execTransition, if_neg hto, if_neg (not_not.mpr hreq'), if_pos hprov']⟩
    next hprov =>
    rw [execTransition_parties hto hreq hprov]
    by_cases hm : row.status ≠ .matched
    · rw [if_pos hm, if_pos hm]
      split
      · exact .inl ⟨rfl, rfl⟩
      · exact .inr ⟨_, rfl⟩
    rw [if_neg hm, if_neg hm]
    have hmatched : row.status = .matched := not_not.mp hm
    have hpr := decide_eq_true (p := row.id = c.id ∧ row.status = .matched) ⟨row_id hrow, hmatched⟩
    have hcount := countP_row ht.key hrow
      (p := fun r => decide (r.id = c.id ∧ r.status = .matched))
      (fun _ hr => (of_decide_eq_true hr).1) hpr
    obtain ⟨n, db₄, h₄⟩ : ∃ n db₄, updateNeed c.toStatus now c.id db = .ok (n, db₄) := ⟨_, _, rfl⟩
    obtain ⟨hrow₄, hitems₄⟩ := updateNeeds_ok h₄
    obtain ⟨rfl, houtbox, hkeys₄⟩ := updateNeeds_keys h₄
    rw [then_of_ok h₄, require_then, if_pos hcount]
    cases h₆ : persistTerminal maxRecords c row now db₄ with
    | error f =>
      rw [then_of_error h₆]
      refine (persistTerminal_error (db.items c.id) (hkeys₄ ▸ mem_needs_of_row hrow) ?_
        h₆).imp id ?_
      · intro items hitems
        have hx : exec (.transitionNeed c) now (some (row.record (db.items c.id))) =
            .ok (.transitioned true, some { row.record (db.items c.id) with
              status := c.toStatus, terminalAt := some now,
              deliveries := db.items c.id ++ items }) := by
          rw [exec, execTransition_parties hto hreq hprov, if_neg hm, hitems]
          rfl
        rw [houtbox]
        exact new_of_edit ht (proper_edit [] rfl (edits_of_exec hx)
          (ht.proper _ _ (view_of_row hrow))) rfl
      · rintro ⟨g, hg⟩
        exact ⟨g, by rw [hg]; rfl⟩
    | ok p =>
      obtain ⟨u, db₆⟩ := p
      obtain ⟨items, hpost, hitems₆, hrow₆, hframe₆, hneeds₆⟩ :=
        postTerminal_of_ok (db.items c.id) h₆
      rw [then_of_ok h₆, oneNeed_then, hrow₆, hrow₄, hrow]
      refine .inr ⟨_, by rw [hpost]; rfl, view_of_update hrow (fun _ hr => (of_decide_eq_true hr).1)
        hpr rfl hrow₄ hitems₄ hitems₆ hrow₆ hframe₆, ?_⟩
      rw [hneeds₆, hkeys₄]
      exact ht.key

/-- A frame from the recorded provider. -/
theorem execPartial_provider {c : Partial} (hprov : row.provider = c.provider) :
    execPartial c (row.record old) =
      if row.status ≠ .matched then .error (terminalFault row.status)
      else if c.sequence = (row.partial_sequence : ℤ) - 1 ∧ c.digest = row.partial_digest then
        .ok (.accepted true, none)
      else if c.sequence ≠ row.partial_sequence then .error ⟨409, "partial_sequence_mismatch"⟩
      else (postFrame c (row.record old)).map fun items => (.accepted false, some { row.record old with
        partialSequence := row.partial_sequence + 1, partialDigest := c.digest,
        deliveries := old ++ items }) := by
  have hprov' : Party (some c.provider) (row.record old).provider := by
    intro p hp _
    rw [← Option.mem_some_iff.mp hp]
    exact hprov
  rw [execPartial, if_neg (not_not.mpr hprov')]
  rfl

theorem postFrame_of_ok {c : Partial} {u : Unit} (old : List OutboxItem)
    (h : persistFrame maxRecords c row now db = .ok (u, db')) :
    ∃ items, postFrame c (row.record old) = .ok items ∧
      db'.items c.id = db.items c.id ++ items ∧ (∀ id', db'.row id' = db.row id') ∧
      (∀ id', id' ≠ c.id → db'.items id' = db.items id') ∧
      db'.lifecycle_needs = db.lifecycle_needs := by
  obtain ⟨items, hp, -, hitems, hrow, hframe⟩ := persistFrame_ok h
  refine ⟨items, ?_, hitems, hrow, hframe, ?_⟩
  · unfold persistFrame at h
    unfold postFrame
    cases hd : c.delivery <;> simp only [hd] at h hp ⊢
    · exact post_of_posts hp
    · obtain ⟨hev, -⟩ := require_then_ok.mp h
      rw [if_pos (by simpa using hev)]
      exact post_of_posts hp
  · unfold persistFrame at h
    cases hd : c.delivery <;> simp only [hd] at h
    · obtain ⟨-, rfl⟩ := pure_ok.mp h
      rfl
    · exact persistOutbox_needs (require_then_ok.mp h).2

theorem persistFrame_error {c : Partial} (old : List OutboxItem)
    (hneed : c.id ∈ db.lifecycle_needs.map NeedRow.id)
    (hnew : ∀ items, postFrame c (row.record old) = .ok items →
      ∀ i ∈ items, i.eventId ∉ db.lifecycle_outbox.map OutboxRow.event_id)
    (h : persistFrame maxRecords c row now db = .error f) :
    f.full = true ∨ ∃ g, postFrame c (row.record old) = .error g := by
  unfold persistFrame at h
  unfold postFrame at hnew ⊢
  cases hd : c.delivery <;> simp only [hd] at h hnew ⊢
  · cases h
  · rw [require_then] at h
    split at h
    · next hev =>
      simp only [Option.all_some, hev, if_true] at hnew ⊢
      exact persistOutbox_error hneed hnew h
    · next hev => exact .inr ⟨_, if_neg (by simpa using hev)⟩

theorem acceptPartial_follows {c : Partial} (ht : Tidy db) (hv : (Call.acceptPartial c).Valid) :
    Follows (exec (.acceptPartial c) now (db.view c.id)) c.id db
      (acceptPartial maxRecords c now db) := by
  have hne : c.provider ≠ [] := ne_nil_of_nonempty hv.2.1
  rw [acceptPartial, oneNeed_then]
  cases hrow : db.row c.id with
  | none => exact .inr ⟨_, by rw [view_of_no_row hrow]; rfl⟩
  | some row =>
    simp only [require_then]
    rw [view_of_row hrow, exec]
    split
    swap
    · next hprov =>
      have hprov' : ¬Party (some c.provider) (row.record (db.items c.id)).provider :=
        fun hp => hprov (hp _ rfl hne)
      exact .inr ⟨_, by rw [execPartial, if_pos hprov']⟩
    next hprov =>
    rw [execPartial_provider hprov]
    by_cases hm : row.status = .matched
    swap
    · rw [if_neg hm]
      exact .inr ⟨_, if_pos hm⟩
    rw [if_pos hm, if_neg (not_not.mpr hm)]
    split
    · exact .inl ⟨rfl, rfl⟩
    next hknown =>
    by_cases hseq : c.sequence = row.partial_sequence
    swap
    · rw [require_then, if_neg hseq]
      exact .inr ⟨_, if_pos hseq⟩
    rw [require_then, if_pos hseq, if_neg (not_not.mpr hseq)]
    have hpr := decide_eq_true (p := row.id = c.id ∧ row.status = .matched ∧
      row.partial_sequence = row.partial_sequence) ⟨row_id hrow, hm, rfl⟩
    have hcount := countP_row ht.key hrow
      (p := fun r => decide (r.id = c.id ∧ r.status = .matched ∧
        r.partial_sequence = row.partial_sequence))
      (fun _ hr => (of_decide_eq_true hr).1) hpr
    obtain ⟨n, db₅, h₅⟩ : ∃ n db₅, updatePartial (row.partial_sequence + 1) c.digest c.id
        row.partial_sequence db = .ok (n, db₅) := ⟨_, _, rfl⟩
    obtain ⟨hrow₅, hitems₅⟩ := updateNeeds_ok h₅
    obtain ⟨rfl, houtbox, hkeys₅⟩ := updateNeeds_keys h₅
    rw [then_of_ok h₅, require_then, if_pos hcount]
    cases h₇ : persistFrame maxRecords c row now db₅ with
    | error f =>
      rw [then_of_error h₇]
      refine (persistFrame_error (db.items c.id) (hkeys₅ ▸ mem_needs_of_row hrow) ?_
        h₇).imp id ?_
      · intro items hitems
        have hx : exec (.acceptPartial c) now (some (row.record (db.items c.id))) =
            .ok (.accepted false, some { row.record (db.items c.id) with
              partialSequence := row.partial_sequence + 1, partialDigest := c.digest,
              deliveries := db.items c.id ++ items }) := by
          rw [exec, execPartial_provider hprov, if_neg (not_not.mpr hm), if_neg hknown,
            if_neg (not_not.mpr hseq), hitems]
          rfl
        rw [houtbox]
        exact new_of_edit ht (proper_edit [] rfl (edits_of_exec hx)
          (ht.proper _ _ (view_of_row hrow))) rfl
      · rintro ⟨g, hg⟩
        exact ⟨g, by rw [hg]; rfl⟩
    | ok p =>
      obtain ⟨u, db₇⟩ := p
      obtain ⟨items, hpost, hitems₇, hrow₇, hframe₇, hneeds₇⟩ :=
        postFrame_of_ok (db.items c.id) h₇
      rw [then_of_ok h₇, hpost]
      refine .inr ⟨_, rfl, view_of_update hrow (fun _ hr => (of_decide_eq_true hr).1)
        hpr rfl hrow₅ hitems₅ hitems₇ hrow₇ hframe₇, ?_⟩
      rw [hneeds₇, hkeys₅]
      exact ht.key

/-- Among items with different ids, looking one up by its id and its recipient is looking it up by
    its id and then comparing the recipient. -/
theorem find_item {items : List OutboxItem} {eventId recipient : JsString} {i : OutboxItem}
    (hkeys : (items.map OutboxItem.eventId).Nodup) (hi : i ∈ items) (hid : i.eventId = eventId) :
    (items.find? fun j => j.eventId = eventId ∧ j.recipient = recipient) =
      if i.recipient = recipient then some i else none := by
  split
  · next hr =>
    have hsome : (items.find? fun j => j.eventId = eventId ∧ j.recipient = recipient).isSome := by
      rw [List.find?_isSome]
      exact ⟨i, hi, decide_eq_true ⟨hid, hr⟩⟩
    obtain ⟨j, hj⟩ := Option.isSome_iff_exists.mp hsome
    have hjid : j.eventId = eventId ∧ j.recipient = recipient := by simpa using List.find?_some hj
    rw [hj, List.inj_on_of_nodup_map hkeys (List.mem_of_find?_eq_some hj) hi
      (hjid.1.trans hid.symm)]
  · next hr =>
    rw [List.find?_eq_none]
    intro j hj hc
    obtain ⟨hjid, hjr⟩ := of_decide_eq_true hc
    rw [List.inj_on_of_nodup_map hkeys hj hi (hjid.trans hid.symm)] at hjr
    exact hr hjr

/-- The row of an event is an item of the record that its id names. -/
theorem row_of_event (ht : Tidy db) {e : OutboxRow}
    (h : (db.lifecycle_outbox.find? fun e => e.event_id = eventId) = some e) :
    ∃ row, db.row e.request_id = some row ∧ e.item ∈ db.items e.request_id ∧
      Cosmos.needOfEvent eventId = .ok e.request_id := by
  have he := List.mem_of_find?_eq_some h
  have heid : e.event_id = eventId := by simpa using List.find?_some h
  obtain ⟨row, hrow⟩ := row_of_outbox he
  have hitem : e.item ∈ db.items e.request_id :=
    List.mem_map_of_mem (List.mem_filter.mpr ⟨he, by simp⟩)
  refine ⟨row, hrow, hitem, ?_⟩
  rw [← heid]
  exact needOfEvent_item (ht.proper _ _ (view_of_row hrow)) hitem

/-- Acknowledging by event id, recipient and no earlier acknowledgement, for the item of a row. -/
theorem items_of_ack (hkeys : ((db.items id).map OutboxItem.eventId).Nodup) (hi : i ∈ db.items id)
    (hid : i.eventId = eventId) (hr : i.recipient = recipient) (hopen : i.acknowledgedAt = none)
    (h : ackOutbox now eventId recipient db = .ok (n, db')) :
    db'.items id = (db.items id).map fun j =>
      if j.eventId = eventId then { j with acknowledgedAt := some now } else j := by
  unfold ackOutbox at h
  cases h
  simp only [Db.items, List.filter_map, List.map_map, filter_ack]
  refine List.map_congr_left fun e he => ?_
  simp only [Function.comp_apply, decide_eq_true_eq]
  by_cases heid : e.event_id = eventId
  · have hitem : e.item = i := by
      refine List.inj_on_of_nodup_map hkeys (List.mem_map_of_mem he) hi ?_
      rw [hid]
      exact heid
    have hrec : e.recipient = recipient := by
      rw [← hr, ← hitem]
      rfl
    have hack : e.acknowledged_at = none := by
      rw [← hopen, ← hitem]
      rfl
    rw [if_pos ⟨heid, hrec, hack⟩, if_pos (show e.item.eventId = eventId from heid)]
    rfl
  · rw [if_neg fun hc => heid hc.1, if_neg (show ¬e.item.eventId = eventId from heid)]

/-- The statement of an acknowledgement changes one row if the one of the event is still open. -/
theorem countP_ack {e : OutboxRow} (hmem : e ∈ db.lifecycle_outbox) (heid : e.event_id = eventId)
    (hr : e.recipient = recipient) (hopen : e.acknowledged_at = none)
    (h : ackOutbox now eventId recipient db = .ok (n, db')) :
    n = 1 := by
  unfold ackOutbox at h
  cases h
  rw [List.countP_eq_length_filter, List.length_eq_one_iff]
  refine ⟨e, List.perm_singleton.mp ?_⟩
  have hnodup : db.lifecycle_outbox.Nodup := List.Nodup.of_map _ db.event_id_key
  refine (List.perm_ext_iff_of_nodup (hnodup.filter _) (List.nodup_singleton _)).mpr ?_
  intro x
  rw [List.mem_filter, List.mem_singleton]
  constructor
  · rintro ⟨hx, hc⟩
    exact List.inj_on_of_nodup_map db.event_id_key hx hmem
      ((of_decide_eq_true hc).1.trans heid.symm)
  · rintro rfl
    exact ⟨hmem, decide_eq_true ⟨heid, hr, hopen⟩⟩

theorem acknowledgeDelivery_follows {c : Acknowledgement} (ht : Tidy db) :
    Follows (exec (.acknowledgeDelivery c) now
        (db.view ((Cosmos.needOfEvent c.eventId).toOption.getD [])))
      ((Cosmos.needOfEvent c.eventId).toOption.getD []) db (acknowledgeDelivery c now db) := by
  rw [acknowledgeDelivery, oneOutbox_then]
  cases hrow : db.lifecycle_outbox.find? fun e => e.event_id = c.eventId with
  | none =>
    -- no row bears the id, so no item does
    refine .inr ?_
    generalize (Cosmos.needOfEvent c.eventId).toOption.getD [] = id
    cases hv : db.view id with
    | none => exact ⟨_, rfl⟩
    | some r =>
      have hr : r.deliveries = db.items id := by
        rw [Db.view, Option.map_eq_some_iff] at hv
        obtain ⟨row, -, rfl⟩ := hv
        rfl
      have hfind : (r.deliveries.find? fun i => i.eventId = c.eventId ∧ i.recipient = c.recipient) =
          none := by
        rw [hr, List.find?_eq_none]
        intro i hi hc
        obtain ⟨e, he, rfl⟩ := List.mem_map.mp hi
        exact List.find?_eq_none.mp hrow e (List.mem_filter.mp he).1
          (decide_eq_true (of_decide_eq_true hc).1)
      exact ⟨_, by rw [exec, execAcknowledge, hfind]⟩
  | some e =>
    obtain ⟨row, hneed, hitem, hparse⟩ := row_of_event ht hrow
    have hmem := List.mem_of_find?_eq_some hrow
    have heid : e.event_id = c.eventId := by simpa using List.find?_some hrow
    have hkeys := (ht.proper _ _ (view_of_row hneed)).keys
    have hfind := @find_item _ _ c.recipient _ hkeys hitem heid
    simp only [require_then]
    rw [hparse, Except.toOption, Option.getD_some, view_of_row hneed, exec, execAcknowledge]
    simp only [NeedRow.record] at hfind ⊢
    rw [hfind]
    by_cases hr : e.recipient = c.recipient
    swap
    · rw [if_neg hr, if_neg (show ¬e.item.recipient = c.recipient from hr)]
      exact .inr ⟨_, rfl⟩
    rw [if_pos hr, if_pos (show e.item.recipient = c.recipient from hr)]
    by_cases hack : e.acknowledged_at.isSome
    · rw [if_pos hack]
      exact .inl ⟨if_pos hack, rfl⟩
    rw [if_neg hack]
    have hopen : e.acknowledged_at = none := by simpa using hack
    obtain ⟨n, db₃, h₃⟩ : ∃ n db₃, ackOutbox now c.eventId c.recipient db = .ok (n, db₃) :=
      ⟨_, _, rfl⟩
    rw [then_of_ok h₃, require_then, if_pos (countP_ack hmem heid hr hopen h₃)]
    obtain ⟨hrows, -, hframe⟩ := ackOutbox_ok h₃
    have hitems := items_of_ack hkeys hitem heid hr hopen h₃
    refine .inr ⟨_, if_neg hack, ?_, ?_⟩
    · funext id'
      by_cases hid : id' = e.request_id
      · subst hid
        rw [Function.update_self, view_of_row (hrows _ ▸ hneed), hitems]
        rfl
      · rw [Function.update_of_ne hid, Db.view, hrows, hframe id' fun x hx hxid => ?_, Db.view]
        have : x = e := List.inj_on_of_nodup_map db.event_id_key hx hmem (hxid.trans heid.symm)
        rw [this]
        exact Ne.symm hid
    · cases h₃
      exact ht.key

/-! ### Calls -/

/-- A call whose arguments pass the ledger's checks is sane, and the other way round. -/
theorem arguments_sane {c : Call} (hv : c.Valid) :
    (∃ f, arguments c = .error f) ∧ c.sane = false ∨ arguments c = .ok () ∧ c.sane = true := by
  cases c with
  | reserveNeed c =>
    obtain ⟨hid, hall, -⟩ := hv
    have hne : ∀ s ∈ [c.id, c.requester, c.provider, c.fingerprint, c.capability, c.mode], s ≠ [] := by
      intro s hs
      rcases List.mem_cons.mp hs with rfl | hs
      · exact ne_nil_of_nonempty (nonempty_of_validNeedId hid)
      · refine ne_nil_of_nonempty (List.all_eq_true.mp hall s ?_)
        simp only [List.mem_cons, List.not_mem_nil, or_false] at hs ⊢
        tauto
    refine .inr ⟨?_, rfl⟩
    rw [arguments, if_pos]
    simpa using hne
  | acceptPartial c =>
    by_cases hs : isSafeInteger c.sequence = true ∧ 0 ≤ c.sequence
    · refine .inr ⟨if_neg ?_, decide_eq_true hs⟩
      have hsafe : isSafeInteger c.sequence = true := hs.1
      simp [hsafe, hs.2]
    · refine .inl ⟨⟨_, if_pos ?_⟩, decide_eq_false hs⟩
      by_contra hc
      rw [not_or] at hc
      exact hs ⟨by simpa using hc.1, not_lt.mp hc.2⟩
  | transitionNeed c =>
    by_cases hto : c.toStatus = .matched
    · exact .inl ⟨⟨_, if_pos hto⟩, decide_eq_false (not_not.mpr hto)⟩
    · exact .inr ⟨if_neg hto, decide_eq_true hto⟩
  | acknowledgeDelivery c =>
    refine .inr ⟨if_neg ?_, rfl⟩
    rintro (h | h)
    · exact ne_nil_of_nonempty hv.1 h
    · exact ne_nil_of_nonempty hv.2 h

/-- Every transaction does what `exec` says about the record that its call is about. -/
theorem operation_follows (maxRecords : ℕ) {c : Call} (now : Time) (ht : Tidy db) (hv : c.Valid)
    (hs : c.sane = true) :
    Follows (exec c now (db.view (Cosmos.key c))) (Cosmos.key c) db
      (operation maxRecords now c db) := by
  cases c with
  | reserveNeed c => exact reserveNeed_follows ht hv
  | acceptPartial c => exact acceptPartial_follows ht hv
  | transitionNeed c => exact transitionNeed_follows ht (of_decide_eq_true hs)
  | acknowledgeDelivery c => exact acknowledgeDelivery_follows ht

/-- What a call writes over proper records is proper. -/
theorem tidy_of_view {c : Call} {a : Answer} (ht : Tidy db) (hv : c.Valid)
    (hx : exec c now (db.view (Cosmos.key c)) = .ok (a, some d))
    (hview : db'.view = Function.update db.view (Cosmos.key c) (some d))
    (hkeys : (db'.lifecycle_needs.map NeedRow.id).Nodup) : Tidy db' := by
  have hid : callId c (Cosmos.key c) = Cosmos.key c := by cases c <;> rfl
  refine ⟨hkeys, fun id r hr => ?_⟩
  rw [hview] at hr
  by_cases h : id = Cosmos.key c
  · subst h
    rw [Function.update_self] at hr
    cases hr
    cases hold : db.view (Cosmos.key c) with
    | none =>
      rw [hold] at hx
      exact hid ▸ proper_create _ hv (creates_of_exec hx)
    | some r =>
      rw [hold] at hx
      exact proper_edit _ hid (edits_of_exec hx) (ht.proper _ _ hold)
  · rw [Function.update_of_ne h] at hr
    exact ht.proper _ _ hr

/-- OBEYS: on tidy tables a valid call answers and writes what `perform` says, unless there is no
    room, and leaves the tables tidy. -/
theorem call_obeys (maxRecords : ℕ) {c : Call} (now : Time) (ht : Tidy db) (hv : c.Valid) :
    Obeys (perform c now (db.view (Cosmos.key c))) (Cosmos.key c) db.view
        ((call maxRecords true c now db).1.map Reply.answer) (call maxRecords true c now db).2.view ∧
      Tidy (call maxRecords true c now db).2 := by
  rcases arguments_sane hv with ⟨⟨f, harg⟩, hs⟩ | ⟨harg, hs⟩
  · rw [call, harg, perform, if_neg (by simp [hs])]
    exact ⟨rfl, ht⟩
  · have hfollows := operation_follows maxRecords now ht hv hs
    rw [perform, if_pos hs]
    unfold call
    rw [harg]
    simp only [transaction, if_true]
    cases hop : operation maxRecords now c db with
    | error f =>
      rw [hop] at hfollows
      refine ⟨?_, ht⟩
      rcases hfollows with hfull | ⟨g, hg⟩
      · cases exec c now (db.view (Cosmos.key c)) with
        | error g => exact rfl
        | ok p => exact ⟨hfull, rfl⟩
      · rw [hg]
        exact rfl
    | ok p =>
      obtain ⟨r, db'⟩ := p
      rw [hop] at hfollows
      rcases hfollows with ⟨hx, rfl⟩ | ⟨d, hx, hview, hkeys⟩
      · rw [hx]
        exact ⟨⟨rfl, rfl⟩, ht⟩
      · exact ⟨by rw [hx]; exact ⟨rfl, hview⟩, tidy_of_view ht hv hx hview hkeys⟩

theorem tidy_empty : Tidy .empty :=
  ⟨List.nodup_nil, fun _ _ h => by cases h⟩

end Sqlite

end Truyn.Ledger
