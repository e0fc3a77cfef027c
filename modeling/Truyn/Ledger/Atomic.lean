import Truyn.Ledger.Safety

/-! ledger:atomic | the calls of a ledger as atomic steps on one record

    What both ledgers do once a call reaches the record: `exec` answers the call and says what to
    write. Refusals that depend on the host (capacity, sizes, transport) are left to whoever runs
    it. Every write is one the abstract ledger allows (`creates_of_exec`, `edits_of_exec`), so
    executing calls on the newest version of a record makes a history of it.

    A book has the histories of all NEEDs; `execute` is one call on it, as the processes that share
    a ledger see it. -/

namespace Truyn.Ledger
open Cas

/-- What a call answers: for a partial frame or an acknowledgement whether it was known, for a
    transition whether it changed the record. -/
inductive Answer
  | reserved
  | accepted (idempotent : Bool)
  | transitioned (changed : Bool)
  | acknowledged (idempotent : Bool)
  deriving DecidableEq, Repr

/-- The outbox items of a delivery that has to be of this kind and for this recipient. -/
def post (id : JsString) (kind : Kind) (recipient : JsString) (delivery : Option Delivery) :
    Except Fault (List OutboxItem) :=
  match delivery with
  | none => .ok []
  | some ⟨to', kind', event⟩ =>
    match event with
    | none => .error ⟨400, "invalid_lifecycle_delivery"⟩
    | some e =>
      if to' = recipient ∧ kind' = kind ∧ e.kind = kind then
        .ok [⟨eventId kind id e, recipient, kind, e, none⟩]
      else .error ⟨400, "invalid_lifecycle_delivery"⟩

/-- The delivery that announces the status a transition goes to. -/
def postTerminal (c : Transition) (r : Record) : Except Fault (List OutboxItem) :=
  match c.toStatus with
  | .completed => post c.id .RESULT r.requester c.delivery
  | .cancelled => post c.id .REVOKE r.provider c.delivery
  | _ => if c.delivery = none then .ok [] else .error ⟨400, "invalid_lifecycle_delivery"⟩

/-- The delivery of a frame has to be about this very frame. -/
def postFrame (c : Partial) (r : Record) : Except Fault (List OutboxItem) :=
  if c.delivery.all fun d => d.event.any fun e =>
      e.sequence = some c.sequence ∧ e.requestId = some c.id then
    post c.id .PARTIAL r.requester c.delivery
  else .error ⟨400, "invalid_partial_delivery"⟩

def execReserve (c : Reservation) (now : Time) (r : Option Record) :
    Except Fault (Answer × Option Record) :=
  match r with
  | some _ => .error ⟨409, "duplicate_request"⟩
  | none => (post c.id .NEED c.provider c.delivery).map fun items =>
      (.reserved, some (c.record now items))

def execTransition (c : Transition) (now : Time) (r : Record) :
    Except Fault (Answer × Option Record) :=
  if c.toStatus = .matched then .error ⟨400, "invalid_lifecycle_transition"⟩
  else if ¬Party c.requester r.requester then .error ⟨403, "not_request_owner"⟩
  else if ¬Party c.provider r.provider then .error ⟨403, "provider_mismatch"⟩
  else if r.status ≠ .matched then
    if c.toStatus = .cancelled ∧ r.status = .cancelled then .ok (.transitioned false, none)
    else .error (terminalFault r.status)
  else (postTerminal c r).map fun items => (.transitioned true, some { r with
    status := c.toStatus, terminalAt := some now, deliveries := r.deliveries ++ items })

def execPartial (c : Partial) (r : Record) : Except Fault (Answer × Option Record) :=
  if ¬Party (some c.provider) r.provider then .error ⟨403, "provider_mismatch"⟩
  else if r.status ≠ .matched then .error (terminalFault r.status)
  else if c.sequence = (r.partialSequence : ℤ) - 1 ∧ c.digest = r.partialDigest then
    .ok (.accepted true, none)
  else if c.sequence ≠ r.partialSequence then .error ⟨409, "partial_sequence_mismatch"⟩
  else (postFrame c r).map fun items => (.accepted false, some { r with
    partialSequence := r.partialSequence + 1, partialDigest := c.digest,
    deliveries := r.deliveries ++ items })

def execAcknowledge (c : Acknowledgement) (now : Time) (r : Record) :
    Except Fault (Answer × Option Record) :=
  match r.deliveries.find? fun i => i.eventId = c.eventId ∧ i.recipient = c.recipient with
  | none => .error ⟨404, "delivery_not_found"⟩
  | some i =>
    if i.acknowledgedAt.isSome then .ok (.acknowledged true, none)
    else .ok (.acknowledged false, some { r with
      deliveries := r.deliveries.map fun i =>
        if i.eventId = c.eventId then { i with acknowledgedAt := some now } else i })

/-- A call on the record of its NEED: refused, or answered with what there is to write. -/
def exec (c : Call) (now : Time) (r : Option Record) : Except Fault (Answer × Option Record) :=
  match c, r with
  | .reserveNeed c, r => execReserve c now r
  | .transitionNeed c, some r => execTransition c now r
  | .acceptPartial c, some r => execPartial c r
  | .acknowledgeDelivery c, some r => execAcknowledge c now r
  | .acknowledgeDelivery _, none => .error ⟨404, "delivery_not_found"⟩
  | _, none => .error ⟨404, "request_not_found"⟩

/-! ### Writes of `exec` are writes of the abstract ledger -/

theorem posts_of_post {id recipient : JsString} {kind : Kind} {d : Option Delivery}
    {items : List OutboxItem} (h : post id kind recipient d = .ok items) :
    Posts id kind recipient d items := by
  rcases d with _ | ⟨to', kind', _ | e⟩
  · cases h; exact .none
  · cases h
  · simp only [post] at h
    split at h
    · next hc =>
      obtain ⟨rfl, rfl, hk⟩ := hc
      cases h
      exact .some hk
    · cases h

theorem map_ok {α β : Type} {x : Except Fault α} {f : α → β} {b : β} (h : x.map f = .ok b) :
    ∃ a, x = .ok a ∧ f a = b := by
  cases x with
  | error _ => cases h
  | ok a => exact ⟨a, rfl, Except.ok.inj h⟩

variable {r' r : Record} {c : Call} {now : Time} {a : Answer} {about : JsString}

theorem creates_of_exec (h : exec c now none = .ok (a, some r')) : Creates c now r' := by
  cases c with
  | reserveNeed c =>
    obtain ⟨items, hp, he⟩ := map_ok h
    cases he
    exact .reserveNeed (posts_of_post hp)
  | _ => cases h

theorem execTransition_edits {c : Transition} (h : execTransition c now r = .ok (a, some r')) :
    Edits (.transitionNeed c) now r r' := by
  unfold execTransition at h
  split at h
  · cases h
  next hto =>
  split at h
  · cases h
  split at h
  · cases h
  split at h
  · split at h <;> cases h
  next hm =>
  obtain ⟨items, hp, he⟩ := map_ok h
  cases he
  refine .transitionNeed (not_not.mp hm) hto ?_
  unfold postTerminal at hp
  unfold Transition.announces
  cases hs : c.toStatus <;> simp only [hs] at hp ⊢
  · exact absurd hs hto
  · exact posts_of_post hp
  · exact posts_of_post hp
  · split at hp
    · exact (Except.ok.inj hp).symm
    · cases hp

theorem execPartial_edits {c : Partial} (h : execPartial c r = .ok (a, some r')) :
    Edits (.acceptPartial c) now r r' := by
  unfold execPartial at h
  split at h
  · cases h
  split at h
  · cases h
  next hm =>
  split at h
  · cases h
  split at h
  · cases h
  next hseq =>
  obtain ⟨items, hp, he⟩ := map_ok h
  cases he
  unfold postFrame at hp
  split at hp
  · next hall =>
    have hposts := posts_of_post hp
    refine .acceptPartial (not_not.mp hm) (not_not.mp hseq) hposts ?_
    generalize c.delivery = d at hall hposts
    cases hposts with
    | none => simp
    | some hk =>
      simp only [Option.all_some, Option.any_some, decide_eq_true_eq] at hall
      simpa using hall.1
  · cases hp

theorem execAcknowledge_edits {c : Acknowledgement}
    (h : execAcknowledge c now r = .ok (a, some r')) :
    Edits (.acknowledgeDelivery c) now r r' := by
  unfold execAcknowledge at h
  split at h
  · cases h
  split at h
  · cases h
  cases h
  refine .acknowledgeDelivery ?_
  rw [List.map_map]
  refine List.map_congr_left fun i _ => ?_
  simp only [Function.comp_apply]
  split <;> rfl

/-- What `exec` writes over a record, the abstract ledger allows. -/
theorem edits_of_exec (h : exec c now (some r) = .ok (a, some r')) : Edits c now r r' := by
  cases c with
  | reserveNeed c => cases h
  | acceptPartial c => exact execPartial_edits h
  | transitionNeed c => exact execTransition_edits h
  | acknowledgeDelivery c => exact execAcknowledge_edits h

/-- The record that a history holds. -/
def History.record (l : History) : Option Record := l.head?.map Version.doc

/-- Executing a call on the newest version of a history gives a history. -/
theorem abstract_of_exec {l : History} (hl : Abstract l)
    (h : exec c now l.record = .ok (a, some r')) :
    Abstract (⟨c, now, r'⟩ :: l) := by
  cases l with
  | nil => exact .create (creates_of_exec h)
  | cons v l => exact .edit hl (edits_of_exec h)

/-! ### Books -/

/-- The histories of a ledger by NEED id. -/
abbrev Book := JsString → History

/-- What an awaited expression gives: nothing without a ledger, else the ledger's answer, the
    record it has, or a fault. -/
inductive Awaited
  | nothing
  | answer (a : Answer)
  | record (r : Option Record)
  | fault (f : Fault)

def Awaited.failed : Awaited → Bool
  | .fault _ => true
  | _ => false

/-- The ledger knew the frame already. -/
def Awaited.known : Awaited → Bool
  | .answer (.accepted idempotent) => idempotent
  | _ => false

/-- The record an awaited `getNeed` gave. -/
def Awaited.need : Awaited → Option Record
  | .record r => r
  | _ => none

/-- A fault of the ledger's host, not an answer to the call: 409 is only ever an answer. -/
def hostFault (f : Fault) : Bool := f.status ≠ 409

/-- The NEED a call is about; an acknowledgement names only an event of it. -/
def callId (c : Call) (about : JsString) : JsString :=
  match c with
  | .reserveNeed c => c.id
  | .transitionNeed c => c.id
  | .acceptPartial c => c.id
  | .acknowledgeDelivery _ => about

/-- A new version of the record of a NEED. -/
def commit (b : Book) (id : JsString) (v : Version Call Time Record) : Book :=
  Function.update b id (v :: b id)

/-- The ledger, if there is one, executes a call. -/
def execute (l : Option Book) (c : Call) (about : JsString) (now : Time) : Option Book × Awaited :=
  match l with
  | none => (none, .fault ⟨503, "lifecycle_ledger_unavailable"⟩)
  | some b =>
    match exec c now (History.record (b (callId c about))) with
    | .error f => (l, .fault f)
    | .ok (a, none) => (l, .answer a)
    | .ok (a, some r) => (some (commit b (callId c about) ⟨c, now, r⟩), .answer a)

/-- The versions of the record of a NEED. -/
def versions (l : Option Book) (id : JsString) : History := (l.map fun b => b id).getD []

variable {l : Option Book}

theorem versions_commit (hl : l.isSome) (id id' : JsString) (v : Version Call Time Record) :
    versions (l.map fun b => commit b id v) id' =
      if id' = id then v :: versions l id' else versions l id' := by
  obtain ⟨b, rfl⟩ := Option.isSome_iff_exists.mp hl
  simp only [versions, Option.map_some, Option.getD_some, commit, Function.update_apply]
  split
  · next h => rw [h]
  · rfl

/-- Executing a call refuses it, answers it, or answers it with a new version. -/
theorem execute_cases (l : Option Book) (c : Call) (about : JsString) (now : Time) :
    (∃ f, execute l c about now = (l, .fault f) ∧
      (l.isSome → exec c now (History.record (versions l (callId c about))) = .error f)) ∨
    (∃ a, execute l c about now = (l, .answer a) ∧
      exec c now (History.record (versions l (callId c about))) = .ok (a, none)) ∨
    ∃ a r, execute l c about now = (l.map fun b => commit b (callId c about) ⟨c, now, r⟩, .answer a) ∧
      exec c now (History.record (versions l (callId c about))) = .ok (a, some r) ∧ l.isSome := by
  unfold execute versions
  cases l with
  | none => exact .inl ⟨_, rfl, fun h => by cases h⟩
  | some b =>
    simp only [Option.map_some, Option.getD_some, Option.isSome_some, true_implies, and_true]
    cases hx : exec c now (History.record (b (callId c about))) with
    | error f => exact .inl ⟨f, rfl, rfl⟩
    | ok p =>
      obtain ⟨a, _ | r⟩ := p
      · exact .inr (.inl ⟨a, rfl, rfl⟩)
      · exact .inr (.inr ⟨a, r, rfl, rfl⟩)

theorem execute_isSome (l : Option Book) (c : Call) (about : JsString) (now : Time) :
    (execute l c about now).1.isSome = l.isSome := by
  rcases execute_cases l c about now with ⟨f, h, -⟩ | ⟨a, h, -⟩ | ⟨a, r, h, -⟩ <;> rw [h]
  exact Option.isSome_map

theorem execute_replied (l : Option Book) (c : Call) (about : JsString) (now : Time) :
    (∃ f, (execute l c about now).2 = .fault f) ∨ ∃ a, (execute l c about now).2 = .answer a := by
  rcases execute_cases l c about now with ⟨f, h, -⟩ | ⟨a, h, -⟩ | ⟨a, r, h, -⟩
  · exact .inl ⟨f, by rw [h]⟩
  · exact .inr ⟨a, by rw [h]⟩
  · exact .inr ⟨a, by rw [h]⟩

/-- Each record keeps its versions. -/
theorem execute_suffix (l : Option Book) (c : Call) (about : JsString) (now : Time)
    (id : JsString) : versions l id <:+ versions (execute l c about now).1 id := by
  rcases execute_cases l c about now with ⟨f, h, -⟩ | ⟨a, h, -⟩ | ⟨a, r, h, -, hl⟩
  · rw [h]
  · rw [h]
  · rw [h, versions_commit hl]
    split
    · exact List.suffix_cons _ _
    · exact List.suffix_rfl

/-- New versions are ones that the abstract ledger allows. -/
theorem execute_abstract (hl : ∀ id, Abstract (versions l id)) (c : Call) (about : JsString)
    (now : Time) (id : JsString) :
    Abstract (versions (execute l c about now).1 id) := by
  rcases execute_cases l c about now with ⟨f, h, -⟩ | ⟨a, h, -⟩ | ⟨a, r, h, hx, hs⟩
  · rw [h]; exact hl id
  · rw [h]; exact hl id
  · rw [h, versions_commit hs]
    split
    · next hid =>
      subst hid
      exact abstract_of_exec (hl _) hx
    · exact hl id

/-! ### Reservations -/

/-- How often a NEED was reserved. -/
def reservations (l : Option Book) (id : JsString) : ℕ :=
  (versions l id).countP fun v => v.call.reserves

theorem execute_reservations (l : Option Book) (c : Call) (about : JsString) (now : Time)
    (id : JsString) : reservations l id ≤ reservations (execute l c about now).1 id :=
  (execute_suffix l c about now id).sublist.countP_le

theorem reservations_le (hl : ∀ id, Abstract (versions l id)) (id : JsString) :
    reservations l id ≤ 1 :=
  (safe_of_lineage (hl id)).reserved

/-- A reservation that is answered made a version. -/
theorem execute_reserve {c : Reservation}
    (h : (execute l (.reserveNeed c) about now).2.failed = false) :
    reservations l c.id + 1 = reservations (execute l (.reserveNeed c) about now).1 c.id := by
  rcases execute_cases l (.reserveNeed c) about now with ⟨f, hx, -⟩ | ⟨a, -, he⟩ | ⟨a, r, hx, -, hl⟩
  · rw [hx] at h
    cases h
  · cases hr : History.record (versions l (callId (.reserveNeed c) about)) with
    | some r =>
      rw [hr] at he
      cases he
    | none =>
      rw [hr] at he
      obtain ⟨items, -, he⟩ := map_ok he
      cases he
  · rw [hx, reservations, reservations, versions_commit hl]
    simp [callId, Call.reserves]

/-! ### Terminal statuses -/

/-- The status of a NEED in a ledger; one that nobody reserved is still open. -/
def History.status (l : History) : NeedStatus := (l.record.map Record.status).getD .matched

/-- A terminal status stays, however many versions follow. -/
theorem status_final {l l' : History} (h : l <:+ l') (hl : Abstract l')
    (hs : l.status ≠ .matched) : l'.status = l.status := by
  have hterm := (safe_of_lineage hl).terminal
  cases l with
  | nil => exact absurd rfl hs
  | cons u l =>
    cases l' with
    | nil => exact absurd (List.suffix_nil.mp h) (List.cons_ne_nil u l)
    | cons v l' =>
      rcases List.suffix_cons_iff.mp h with he | h
      · rw [he]
      · exact (List.pairwise_cons.mp hterm).1 u (h.subset List.mem_cons_self) hs

/-- A transition is answered when it moves the record, or when it cancels it again. -/
theorem execTransition_ok {c : Transition} {d : Option Record}
    (h : execTransition c now r = .ok (a, d)) :
    (d = none ∧ c.toStatus = .cancelled ∧ r.status = .cancelled) ∨
      ∃ r', d = some r' ∧ r.status = .matched ∧ r'.status = c.toStatus := by
  unfold execTransition at h
  split at h
  · cases h
  split at h
  · cases h
  split at h
  · cases h
  split at h
  · split at h
    · next hc =>
      cases h
      exact .inl ⟨rfl, hc⟩
    · cases h
  · next hm =>
    obtain ⟨items, -, he⟩ := map_ok h
    cases he
    exact .inr ⟨_, rfl, not_not.mp hm, rfl⟩

/-- A transition that is answered leaves its NEED in the status asked for; only a cancellation is
    answered twice. -/
theorem execute_transition {c : Transition}
    (h : (execute l (.transitionNeed c) about now).2.failed = false) :
    (versions (execute l (.transitionNeed c) about now).1 c.id).status = c.toStatus ∧
      (c.toStatus ≠ .cancelled → (versions l c.id).status = .matched) := by
  have hok : ∀ {a d}, exec (.transitionNeed c) now (versions l c.id).record = .ok (a, d) →
      (d = none ∧ c.toStatus = .cancelled ∧ (versions l c.id).status = .cancelled) ∨
        ∃ r', d = some r' ∧ (versions l c.id).status = .matched ∧ r'.status = c.toStatus := by
    intro a d he
    cases hr : (versions l c.id).record with
    | none =>
      rw [hr] at he
      cases he
    | some r =>
      rw [hr] at he
      rw [History.status, hr]
      exact execTransition_ok he
  rcases execute_cases l (.transitionNeed c) about now with ⟨f, hx, -⟩ | ⟨a, hx, he⟩ |
    ⟨a, r, hx, he, hl⟩
  · rw [hx] at h
    cases h
  · rcases hok he with ⟨-, hc, hs⟩ | ⟨r', hr', -⟩
    · exact ⟨by rw [hx, hs, hc], fun hne => absurd hc hne⟩
    · cases hr'
  · rcases hok he with ⟨hn, -⟩ | ⟨r', hr', hm, hs⟩
    · cases hn
    · cases hr'
      refine ⟨?_, fun _ => hm⟩
      rw [hx, versions_commit hl, callId, if_pos rfl]
      exact hs

/-! ### PARTIAL frames -/

/-- The sequence number a NEED expects next. -/
def History.counter (l : History) : ℕ := (l.record.map Record.partialSequence).getD 0

theorem edit_counter {t : Time} (h : Edits c t r r') :
    r.partialSequence ≤ r'.partialSequence := by
  cases h with
  | acceptPartial => exact Nat.le_succ _
  | transitionNeed | acknowledgeDelivery => exact le_refl _

/-- The counter never moves back. -/
theorem counter_mono {l l' : History} (h : l <:+ l') (hl : Abstract l') :
    l.counter ≤ l'.counter := by
  induction hl with
  | nil => rw [List.suffix_nil.mp h]
  | create =>
    rcases List.suffix_cons_iff.mp h with rfl | h
    · exact le_refl _
    · rw [List.suffix_nil.mp h]
      exact Nat.zero_le _
  | edit _ he ih =>
    rcases List.suffix_cons_iff.mp h with rfl | h
    · exact le_refl _
    · exact (ih h).trans (edit_counter he)

/-- The fault that refuses a frame out of sequence. -/
def sequenceMismatch : String := "partial_sequence_mismatch"

theorem post_error {id recipient : JsString} {kind : Kind} {d : Option Delivery} {f : Fault}
    (h : post id kind recipient d = .error f) : f.status = 400 := by
  rcases d with _ | ⟨to', kind', _ | e⟩
  · cases h
  · cases h
    rfl
  · simp only [post] at h
    split at h
    · cases h
    · cases h
      rfl

theorem map_error {α β : Type} {x : Except Fault α} {f : α → β} {e : Fault}
    (h : x.map f = .error e) : x = .error e := by
  cases x with
  | error _ => exact congrArg _ (Except.error.inj h)
  | ok a => cases h

theorem terminalFault_code (s : NeedStatus) : terminalFault s ≠ ⟨409, sequenceMismatch⟩ := by
  cases s <;> decide

/-- A frame is answered as known, or it is the next one and moves the counter. -/
theorem execPartial_ok {c : Partial} {d : Option Record} (h : execPartial c r = .ok (a, d)) :
    a = .accepted true ∨
      a = .accepted false ∧ c.sequence = r.partialSequence ∧
        ∃ r', d = some r' ∧ r'.partialSequence = r.partialSequence + 1 := by
  unfold execPartial at h
  split at h
  · cases h
  split at h
  · cases h
  split at h
  · cases h
    exact .inl rfl
  split at h
  · cases h
  · next hs =>
    obtain ⟨items, -, he⟩ := map_ok h
    cases he
    exact .inr ⟨rfl, not_not.mp hs, _, rfl, rfl⟩

/-- Only a frame that is neither the next nor the last one, of a matched NEED, is out of sequence. -/
theorem execPartial_mismatch {c : Partial} (h : execPartial c r = .error ⟨409, sequenceMismatch⟩) :
    r.status = .matched ∧
      c.sequence ≠ r.partialSequence ∧
      ¬(c.sequence = (r.partialSequence : ℤ) - 1 ∧ c.digest = r.partialDigest) := by
  unfold execPartial at h
  split at h
  · cases h
  split at h
  · exact absurd (Except.error.inj h) (terminalFault_code _)
  next hm =>
  split at h
  · cases h
  next hi =>
  split at h
  · next hs => exact ⟨not_not.mp hm, hs, hi⟩
  · have := map_error h
    unfold postFrame at this
    split at this
    · cases post_error this
    · cases this

theorem execTransition_error {c : Transition} :
    execTransition c now r ≠ .error ⟨409, sequenceMismatch⟩ := by
  intro h
  unfold execTransition at h
  split at h
  · cases h
  split at h
  · cases h
  split at h
  · cases h
  split at h
  · split at h
    · cases h
    · exact terminalFault_code _ (Except.error.inj h)
  · have := map_error h
    unfold postTerminal at this
    split at this
    · cases post_error this
    · cases post_error this
    · split at this <;> cases this

/-- A frame that the ledger newly accepts was the next one, and moves the counter. -/
theorem execute_accepted {c : Partial} (h : (execute l (.acceptPartial c) about now).2 = .answer a)
    (ha : a ≠ .accepted true) : a = .accepted false ∧ c.sequence = (versions l c.id).counter ∧
      (versions (execute l (.acceptPartial c) about now).1 c.id).counter =
        (versions l c.id).counter + 1 := by
  have hok : ∀ {b d}, exec (.acceptPartial c) now (versions l c.id).record = .ok (b, d) →
      b = .accepted true ∨ b = .accepted false ∧ c.sequence = (versions l c.id).counter ∧
        ∃ r', d = some r' ∧ r'.partialSequence = (versions l c.id).counter + 1 := by
    intro b d he
    cases hr : (versions l c.id).record with
    | none =>
      rw [hr] at he
      cases he
    | some r =>
      rw [hr] at he
      rw [History.counter, hr]
      exact execPartial_ok he
  rcases execute_cases l (.acceptPartial c) about now with ⟨f, hx, -⟩ | ⟨b, hx, he⟩ |
    ⟨b, r, hx, he, hl⟩
  · rw [hx] at h
    cases h
  · rw [hx] at h
    cases h
    rcases hok he with hb | ⟨-, -, r', hr', -⟩
    · exact absurd hb ha
    · cases hr'
  · rw [hx] at h
    cases h
    rcases hok he with hb | ⟨hb, hs, r', hr', hc⟩
    · exact absurd hb ha
    · cases hr'
      refine ⟨hb, hs, ?_⟩
      rw [hx, versions_commit hl, callId, if_pos rfl]
      exact hc

theorem exec_mismatch {r : Option Record} (h : exec c now r = .error ⟨409, sequenceMismatch⟩) :
    ∃ c', c = .acceptPartial c' ∧
      ∃ d ∈ r, d.status = .matched ∧ c'.sequence ≠ d.partialSequence ∧
        ¬(c'.sequence = (d.partialSequence : ℤ) - 1 ∧ c'.digest = d.partialDigest) := by
  cases c with
  | reserveNeed c =>
    cases r with
    | none => cases post_error (map_error h)
    | some d => exact absurd (Except.error.inj h) (by decide)
  | acceptPartial c =>
    cases r with
    | none => cases h
    | some d => exact ⟨c, rfl, d, rfl, execPartial_mismatch h⟩
  | transitionNeed c =>
    cases r with
    | none => cases h
    | some d => exact absurd h execTransition_error
  | acknowledgeDelivery c =>
    cases r with
    | none => cases h
    | some d =>
      simp only [exec, execAcknowledge] at h
      split at h
      · cases h
      · split at h <;> cases h

/-- Only `acceptPartial` is answered with a mismatch: for a frame that is neither the next nor the
    last one. -/
theorem execute_mismatch (h : (execute l c about now).2 = .fault ⟨409, sequenceMismatch⟩) :
    ∃ c', c = .acceptPartial c' ∧ ∃ d ∈ (versions l c'.id).record, d.status = .matched ∧
      c'.sequence ≠ d.partialSequence ∧
      ¬(c'.sequence = (d.partialSequence : ℤ) - 1 ∧ c'.digest = d.partialDigest) := by
  rcases execute_cases l c about now with ⟨f, hx, he⟩ | ⟨a, hx, -⟩ | ⟨a, r, hx, -⟩
  · rw [hx] at h
    cases h
    cases l with
    | none => cases hx
    | some b =>
      obtain ⟨c', rfl, hd⟩ := exec_mismatch (he rfl)
      exact ⟨c', rfl, hd⟩
  · rw [hx] at h
    cases h
  · rw [hx] at h
    cases h

end Truyn.Ledger
