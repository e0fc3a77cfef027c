import Truyn.Ledger.Atomic
import Truyn.Ledger.Events

/-! ledger:proper | the records that valid calls build

    Every item of a proper record bears the id of its own event, no two items the same one, and the
    outbox holds no event that the status and the counter do not account for (`Proper`). Then the
    event a call posts is new (`fresh_item`), so a ledger that refuses to record an event twice
    never has to refuse a call that `perform` accepts. Calls with valid arguments keep records proper
    (`proper_create`, `proper_edit`). -/

namespace Truyn.Ledger
open Cosmos (validNeedId nonempty)

/-! ### Valid calls -/

/-- The arguments a caller fills in are strings of the lengths that both ledgers take. A paid
    authorization, if there is one, is the one of this very NEED. -/
def Call.Valid : Call → Prop
  | .reserveNeed c => validNeedId c.id = true ∧
      [c.requester, c.provider, c.fingerprint, c.capability, c.mode, c.scope, c.policyDigest].all
        nonempty = true ∧ c.paidAuthorization.all (fun p => Cosmos.PaidAuthorization.fits p c) = true
  | .acceptPartial c => validNeedId c.id = true ∧ nonempty c.provider = true ∧
      c.digest.any nonempty = true ∧ c.delivery.isSome = true
  | .transitionNeed c => validNeedId c.id = true
  | .acknowledgeDelivery c => nonempty c.eventId = true ∧ nonempty c.recipient = true

/-- The arguments that say what the call is to do: a sequence number, a terminal status. -/
def Call.sane : Call → Bool
  | .acceptPartial c => isSafeInteger c.sequence ∧ 0 ≤ c.sequence
  | .transitionNeed c => c.toStatus ≠ .matched
  | _ => true

/-- A call on the record of its NEED, its arguments checked first. -/
def perform (c : Call) (now : Time) (r : Option Record) : Except Fault (Answer × Option Record) :=
  if c.sane then exec c now r else .error ⟨400, "invalid_lifecycle_call"⟩

/-! ### Proper records -/

/-- A record of NEED `id` as valid calls build it. -/
structure Proper (id : JsString) (r : Record) : Prop where
  need : validNeedId id = true
  requester : nonempty r.requester = true
  provider : nonempty r.provider = true
  ids : ∀ i ∈ r.deliveries, i.eventId = eventId i.kind id i.event ∧ Named i.kind i.event
  keys : (r.deliveries.map OutboxItem.eventId).Nodup
  frames : ∀ i ∈ r.deliveries, i.kind = .PARTIAL →
    ∃ n : ℕ, n < r.partialSequence ∧ i.event.sequence = some (n : ℤ)
  terminals : r.status = .matched → ∀ i ∈ r.deliveries, i.kind = .NEED ∨ i.kind = .PARTIAL
  digest : r.partialSequence = 0 → r.partialDigest = none

variable {id : JsString} {kind : Kind} {r : Record} {e : Event}

theorem nonempty_of_validNeedId (h : validNeedId id = true) :
    nonempty id = true :=
  (of_decide_eq_true h).1

theorem ne_nil_of_nonempty {s : JsString} (h : nonempty s = true) : s ≠ [] := by
  rintro rfl
  exact absurd h (by decide)

/-- The one item that a delivery adds. -/
theorem items_of_posts {recipient : JsString} {d : Option Delivery} {items : List OutboxItem}
    (h : Posts id kind recipient d items) :
    items = [] ∨ ∃ e : Event, items = [⟨eventId kind id e, recipient, kind, e, none⟩] ∧
      e.kind = kind ∧ ∃ d', d = some d' ∧ d'.event = some e := by
  cases h with
  | none => exact .inl rfl
  | some hk => exact .inr ⟨_, rfl, hk, _, rfl, rfl⟩

/-- The events of one record differ from a new one by kind, or by sequence number. -/
theorem fresh_item (hr : Proper id r) (hn : Named kind e)
    (hnew : ∀ i ∈ r.deliveries, i.kind = kind →
      kind = .PARTIAL ∧ i.event.sequence ≠ e.sequence) :
    ∀ i ∈ r.deliveries, i.eventId ≠ eventId kind id e := by
  intro i hi heq
  obtain ⟨hid, hin⟩ := hr.ids i hi
  rw [hid] at heq
  have hne := nonempty_of_validNeedId hr.need
  obtain ⟨-, hk, hs⟩ := eventId_inj hne hne hin hn heq
  obtain ⟨hp, hseq⟩ := hnew i hi hk
  exact hseq (hs (hk.trans hp))

/-- Adding one new item keeps the ids of a record proper. -/
theorem keys_append {i : OutboxItem} (hk : (r.deliveries.map OutboxItem.eventId).Nodup)
    (hnew : ∀ j ∈ r.deliveries, j.eventId ≠ i.eventId) :
    ((r.deliveries ++ [i]).map OutboxItem.eventId).Nodup := by
  rw [List.map_append, List.nodup_append']
  refine ⟨hk, by simp, ?_⟩
  intro x hx hx'
  obtain ⟨j, hj, rfl⟩ := List.mem_map.mp hx
  exact hnew j hj (by simpa using hx')

theorem proper_create {c : Call} {t : Time} (about : JsString) (hv : c.Valid) (h : Creates c t r) :
    Proper (callId c about) r := by
  cases h with
  | @reserveNeed c t items hp =>
    obtain ⟨hid, hall, -⟩ := hv
    have hreq : nonempty c.requester = true := List.all_eq_true.mp hall _ (by simp)
    have hprov : nonempty c.provider = true := List.all_eq_true.mp hall _ (by simp)
    have hitems := items_of_posts hp
    refine ⟨hid, hreq, hprov, ?_, ?_, ?_, ?_, fun _ => rfl⟩ <;>
      simp only [Reservation.record, callId]
    · rcases hitems with rfl | ⟨e, rfl, -, -⟩ <;> simp [Named]
    · rcases hitems with rfl | ⟨e, rfl, -, -⟩ <;> simp
    · rcases hitems with rfl | ⟨e, rfl, -, -⟩ <;> simp
    · rcases hitems with rfl | ⟨e, rfl, -, -⟩ <;> simp

/-- A proper record stays proper when it gets one item that is new to it. -/
theorem proper_append {recipient : JsString} (hr : Proper id r) {n : ℕ} {s : NeedStatus}
    {at' : Option Time} {dig : Option JsString} (hn : Named kind e)
    (hnew : ∀ i ∈ r.deliveries, i.kind = kind → kind = .PARTIAL ∧ i.event.sequence ≠ e.sequence)
    (hcount : r.partialSequence ≤ n)
    (hframe : kind = .PARTIAL → ∃ m : ℕ, m < n ∧ e.sequence = some (m : ℤ))
    (hs : s = .matched → r.status = .matched ∧ kind = .PARTIAL) (hd : n = 0 → dig = none) :
    Proper id { r with
      partialSequence := n, partialDigest := dig, status := s, terminalAt := at',
      deliveries := r.deliveries ++ [⟨eventId kind id e, recipient, kind, e, none⟩] } := by
  refine ⟨hr.need, hr.requester, hr.provider, ?_, ?_, ?_, ?_, hd⟩
  · intro i hi
    rcases List.mem_append.mp hi with hi | hi
    · exact hr.ids i hi
    · rw [List.mem_singleton.mp hi]
      exact ⟨rfl, hn⟩
  · exact keys_append hr.keys (fresh_item hr hn hnew)
  · intro i hi hk
    rcases List.mem_append.mp hi with hi | hi
    · obtain ⟨m, hm, hseq⟩ := hr.frames i hi hk
      exact ⟨m, lt_of_lt_of_le hm hcount, hseq⟩
    · rw [List.mem_singleton.mp hi] at hk ⊢
      exact hframe hk
  · intro hm i hi
    obtain ⟨hmatched, hk⟩ := hs hm
    rcases List.mem_append.mp hi with hi | hi
    · exact hr.terminals hmatched i hi
    · rw [List.mem_singleton.mp hi]
      exact .inr hk

/-- A matched record has announced no terminal status. -/
theorem new_of_terminal (hr : Proper id r) (hm : r.status = .matched)
    (hk : kind ≠ .NEED ∧ kind ≠ .PARTIAL) :
    ∀ i ∈ r.deliveries, i.kind = kind → kind = .PARTIAL ∧ i.event.sequence ≠ e.sequence := by
  intro i hi hik
  rcases hr.terminals hm i hi with h | h
  · exact absurd (hik.symm.trans h) hk.1
  · exact absurd (hik.symm.trans h) hk.2

/-- Every write of the abstract ledger keeps a record proper. -/
theorem proper_edit {c : Call} {t : Time} {r' : Record} (about : JsString)
    (hid : callId c about = id) (h : Edits c t r r') (hr : Proper id r) : Proper id r' := by
  cases h with
  | @acceptPartial c t r items hm hseq hp hi =>
    obtain rfl : c.id = id := hid
    rcases items_of_posts hp with rfl | ⟨e, rfl, -, -⟩
    · rw [List.append_nil]
      refine { hr with frames := ?_, digest := fun h0 => absurd h0 (Nat.succ_ne_zero _) }
      intro i hi' hk
      obtain ⟨n, hn, hs⟩ := hr.frames i hi' hk
      exact ⟨n, Nat.lt_succ_of_lt hn, hs⟩
    · have he : e.sequence = some (r.partialSequence : ℤ) := by
        rw [← hseq]
        exact hi _ (List.mem_singleton.mpr rfl)
      refine proper_append hr ⟨_, he⟩ ?_ (Nat.le_succ _)
        (fun _ => ⟨_, Nat.lt_succ_self _, he⟩) (fun _ => ⟨hm, rfl⟩)
        (fun h0 => absurd h0 (Nat.succ_ne_zero _))
      intro i hi' hk
      obtain ⟨n, hn, hs⟩ := hr.frames i hi' hk
      refine ⟨rfl, ?_⟩
      rw [hs, he]
      simp only [ne_eq, Option.some.injEq, Nat.cast_inj]
      omega
  | @transitionNeed c t r items hm hto ha =>
    obtain rfl : c.id = id := hid
    have hst : c.toStatus = .matched → r.status = .matched ∧ False := fun h => absurd h hto
    have hempty : items = [] → Proper c.id { r with
        status := c.toStatus, terminalAt := some t, deliveries := r.deliveries ++ items } := by
      rintro rfl
      rw [List.append_nil]
      exact { hr with terminals := fun h => absurd h hto }
    unfold Transition.announces at ha
    split at ha
    · rcases items_of_posts ha with h0 | ⟨e, rfl, -, -⟩
      · exact hempty h0
      · exact proper_append hr trivial (new_of_terminal hr hm (by decide)) (Nat.le_refl _)
          (fun h => absurd h (by decide)) (fun h => absurd h hto) hr.digest
    · rcases items_of_posts ha with h0 | ⟨e, rfl, -, -⟩
      · exact hempty h0
      · exact proper_append hr trivial (new_of_terminal hr hm (by decide)) (Nat.le_refl _)
          (fun h => absurd h (by decide)) (fun h => absurd h hto) hr.digest
    · exact hempty ha
  | @acknowledgeDelivery c t r items hp =>
    -- an item keeps everything but its acknowledgement
    have hitem : ∀ i ∈ items, ∃ j ∈ r.deliveries, i.eventId = j.eventId ∧ i.kind = j.kind ∧
        i.event = j.event := by
      intro i hi
      obtain ⟨j, hj, hji⟩ := List.mem_map.mp (hp ▸ List.mem_map_of_mem (f := OutboxItem.pending) hi)
      exact ⟨j, hj, (congrArg OutboxItem.eventId hji).symm, (congrArg OutboxItem.kind hji).symm,
        (congrArg OutboxItem.event hji).symm⟩
    have hkeys : items.map OutboxItem.eventId = r.deliveries.map OutboxItem.eventId := by
      have := congrArg (List.map OutboxItem.eventId) hp
      rw [List.map_map, List.map_map] at this
      exact this
    refine ⟨hr.need, hr.requester, hr.provider, ?_, ?_, ?_, ?_, hr.digest⟩
    · intro i hi
      obtain ⟨j, hj, hid', hk, he⟩ := hitem i hi
      rw [hid', hk, he]
      exact hr.ids j hj
    · simp only [hkeys]
      exact hr.keys
    · intro i hi hk
      obtain ⟨j, hj, -, hk', he⟩ := hitem i hi
      rw [he]
      exact hr.frames j hj (hk' ▸ hk)
    · intro hm i hi
      obtain ⟨j, hj, -, hk', -⟩ := hitem i hi
      rw [hk']
      exact hr.terminals hm j hj

end Truyn.Ledger
