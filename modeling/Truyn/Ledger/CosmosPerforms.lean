import Truyn.Ledger.SqlitePerforms

/-! ledger:cosmos-performs | the multi-host ledger does what a call on its record is to do

    A call that no other call interferes with is `Client.perform` of the client. On documents with
    proper records it answers what `perform` answers, and leaves the record that `perform` writes
    and no other (`call_obeys`), unless there is no room. -/

namespace Truyn.Ledger
open Cas

namespace Cosmos

/-- The documents of a ledger that nobody else is calling. -/
abbrev Docs := JsString → Option Doc

/-- The record in every document. -/
def recordsOf (docs : Docs) : View := fun id => (docs id).map Doc.toRecord

/-- What the caller hears of a call that went through, `changed` telling whether it wrote. -/
def answerOf (changed : Bool) : Call → Answer
  | .reserveNeed _ => .reserved
  | .acceptPartial _ => .accepted !changed
  | .transitionNeed _ => .transitioned changed
  | .acknowledgeDelivery _ => .acknowledged !changed

/-- The documents hold proper records under their own ids. -/
structure Tidy (docs : Docs) : Prop where
  logicalId : ∀ id d, docs id = some d → d.logicalId = id
  proper : ∀ id d, docs id = some d → Proper id d.toRecord

variable {cfg : Config} {doc : Doc} {f : Fault} {now : Time} {c : Call} {docs : Docs}

variable {recipient id : JsString} {delivery : Option Delivery} {kind : Kind}

/-! ### Callbacks -/

/-- Appending a delivery fails only if it is invalid, or for lack of room. -/
theorem appendDelivery_error (hkind : kind ∈ [Kind.NEED, .RESULT, .REVOKE, .PARTIAL])
    (hrec : nonempty recipient = true)
    (hnew : ∀ items, post doc.logicalId kind recipient delivery = .ok items →
      ∀ i ∈ items, ∀ j ∈ doc.deliveries, j.eventId ≠ i.eventId)
    (h : appendDelivery cfg doc delivery kind recipient = .error f) :
    f.full = true ∨ ∃ g, post doc.logicalId kind recipient delivery = .error g := by
  unfold appendDelivery at h
  rcases delivery with _ | ⟨recipient', kind', event⟩
  · cases h
  simp only at h
  split at h
  · next hbad =>
    refine .inr ?_
    cases event with
    | none => exact ⟨_, rfl⟩
    | some e =>
      refine ⟨_, if_neg ?_⟩
      rintro ⟨rfl, rfl, -⟩
      simp at hbad
  next hok =>
  obtain ⟨rfl, rfl⟩ : kind' = kind ∧ recipient' = recipient := by
    simpa only [ne_eq, not_or, not_not] using hok
  split at h
  · cases h
    exact .inl (by decide)
  split at h
  · next g hg =>
    cases h
    unfold deliveryFor at hg
    split at hg
    · exact .inr ⟨_, rfl⟩
    next e =>
    split at hg
    · next hbad =>
      refine .inr ⟨_, if_neg ?_⟩
      rintro ⟨-, -, hk⟩
      simp [hkind, hrec, hk] at hbad
    split at hg
    · cases hg
      exact .inl (by decide)
    · cases hg
  next item hitem =>
  split at h
  · next hany =>
    exfalso
    unfold deliveryFor at hitem
    split at hitem
    · cases hitem
    next e =>
    split at hitem
    · cases hitem
    next hgood =>
    split at hitem
    · cases hitem
    cases hitem
    have hk : e.kind = kind' := by
      by_contra hne
      exact hgood (.inr (.inr hne))
    obtain ⟨j, hj, hjid⟩ := List.any_eq_true.mp hany
    exact hnew _ (if_pos ⟨rfl, rfl, hk⟩) _ (List.mem_singleton.mpr rfl) j hj
      (of_decide_eq_true hjid)
  · cases h

/-- Appending a delivery adds what it posts. -/
theorem appendDelivery_post {doc' : Doc}
    (h : appendDelivery cfg doc delivery kind recipient = .ok doc') :
    ∃ items, post doc.logicalId kind recipient delivery = .ok items ∧
      doc' = { doc with deliveries := doc.deliveries ++ items } := by
  obtain ⟨items, hp, hd⟩ := appendDelivery_ok h
  exact ⟨items, post_of_posts hp, hd⟩

/-- `authorize` compares the parties as `exec` does. -/
theorem authorize_cases (doc : Doc) (requester provider : Option JsString) :
    (∃ f, authorize doc requester provider = .error f) ∧
        ¬(Party requester doc.requester ∧ Party provider doc.provider) ∨
      authorize doc requester provider = .ok () ∧ Party requester doc.requester ∧
        Party provider doc.provider := by
  have hparty : ∀ (p : Option JsString) (recorded : JsString),
      (p.any fun x => x ≠ [] ∧ recorded ≠ x) = true ↔ ¬Party p recorded := by
    intro p recorded
    cases p with
    | none => simp [Party]
    | some x => simp [Party]
  unfold authorize
  by_cases hreq : Party requester doc.requester
  · by_cases hprov : Party provider doc.provider
    · refine .inr ⟨?_, hreq, hprov⟩
      rw [if_neg (by rw [hparty]; exact not_not.mpr hreq),
        if_neg (by rw [hparty]; exact not_not.mpr hprov)]
    · refine .inl ⟨⟨⟨403, "provider_mismatch"⟩, ?_⟩, fun h => hprov h.2⟩
      rw [if_neg (by rw [hparty]; exact not_not.mpr hreq), if_pos ((hparty _ _).mpr hprov)]
  · exact .inl ⟨⟨_, if_pos ((hparty _ _).mpr hreq)⟩, fun h => hreq h.1⟩

/-- A callback does what `told` says about the record in the document. -/
def Follows (told : Except Fault (Answer × Option Record)) (c : Call)
    (result : Except Fault (Option Doc)) : Prop :=
  match result with
  | .error f => f.full = true ∨ ∃ g, told = .error g
  | .ok none => told = .ok (answerOf false c, none)
  | .ok (some d) => told = .ok (answerOf true c, some d.toRecord)

theorem transitionNeed_follows {c : Transition} (hid : doc.logicalId = c.id)
    (hp : Proper c.id doc.toRecord) (hto : c.toStatus ≠ .matched) :
    Follows (exec (.transitionNeed c) now (some doc.toRecord)) (.transitionNeed c)
      (transitionNeed cfg c now doc) := by
  unfold transitionNeed
  rw [exec, execTransition, if_neg hto]
  rcases authorize_cases doc c.requester c.provider with ⟨⟨f, hf⟩, hparty⟩ | ⟨hok, hreq, hprov⟩
  · rw [hf]
    refine .inr ?_
    by_cases hreq : Party c.requester doc.requester
    · have hprov : ¬Party c.provider doc.provider := fun h => hparty ⟨hreq, h⟩
      exact ⟨_, by rw [if_neg (not_not.mpr hreq), if_pos hprov]⟩
    · exact ⟨_, if_pos hreq⟩
  rw [hok, if_neg (not_not.mpr hreq), if_neg (not_not.mpr hprov)]
  simp only
  by_cases hm : doc.status = .matched
  · rw [if_neg (not_not.mpr hm), if_neg (not_not.mpr hm)]
    -- what the transition posts is new to the record
    have hnew : ∀ items, postTerminal c doc.toRecord = .ok items →
        ∀ i ∈ items, ∀ j ∈ doc.deliveries, j.eventId ≠ i.eventId := by
      intro items hitems i hi j hj heq
      have hx : exec (.transitionNeed c) now (some doc.toRecord) = .ok (.transitioned true,
          some { doc.toRecord with
            status := c.toStatus, terminalAt := some now, deliveries := doc.deliveries ++ items }) := by
        rw [exec, execTransition, if_neg hto, if_neg (not_not.mpr hreq), if_neg (not_not.mpr hprov),
          if_neg (not_not.mpr hm), hitems]
        rfl
      have hkeys := (proper_edit [] rfl (edits_of_exec hx) hp).keys
      rw [List.map_append, List.nodup_append'] at hkeys
      exact hkeys.2.2 (List.mem_map_of_mem hj) (heq ▸ List.mem_map_of_mem hi)
    have hterm : (c.toStatus = .failed ∧ c.delivery.isSome = true → ∃ g, postTerminal c doc.toRecord =
        .error g) ∧ (¬(c.toStatus = .failed ∧ c.delivery.isSome = true) →
          (∀ f, appendTerminal cfg c doc = .error f → f.full = true ∨
            ∃ g, postTerminal c doc.toRecord = .error g) ∧
          ∀ d, appendTerminal cfg c doc = .ok d → ∃ items, postTerminal c doc.toRecord = .ok items ∧
            d = { doc with deliveries := doc.deliveries ++ items }) := by
      unfold appendTerminal
      unfold postTerminal at hnew ⊢
      cases hs : c.toStatus <;> simp only [hs] at hnew ⊢
      · exact absurd hs hto
      · refine ⟨fun h => absurd h.1 (by decide), fun _ => ⟨fun f hf => ?_, fun d hd => ?_⟩⟩
        · exact hid ▸ appendDelivery_error (by decide) hp.requester (hid ▸ hnew) hf
        · exact hid ▸ appendDelivery_post hd
      · refine ⟨fun h => absurd h.1 (by decide), fun _ => ⟨fun f hf => ?_, fun d hd => ?_⟩⟩
        · exact hid ▸ appendDelivery_error (by decide) hp.provider (hid ▸ hnew) hf
        · exact hid ▸ appendDelivery_post hd
      · refine ⟨fun h => ⟨_, if_neg ?_⟩, fun h => ⟨fun f hf => (by cases hf), fun d hd => ?_⟩⟩
        · intro hnone
          rw [hnone] at h
          exact absurd h.2 (by decide)
        · cases hd
          have hnone : c.delivery = none := by simpa using h
          exact ⟨[], if_pos hnone, by simp⟩
    split
    · next hbad =>
      obtain ⟨g, hg⟩ := hterm.1 hbad
      exact .inr ⟨g, by rw [hg]; rfl⟩
    · next hgood =>
      obtain ⟨herr, hok'⟩ := hterm.2 hgood
      cases happ : appendTerminal cfg c doc with
      | error f =>
        refine (herr f happ).imp id ?_
        rintro ⟨g, hg⟩
        exact ⟨g, by rw [hg]; rfl⟩
      | ok d =>
        obtain ⟨items, hitems, rfl⟩ := hok' d happ
        rw [hitems]
        rfl
  · rw [if_pos hm, if_pos hm]
    by_cases hc : c.toStatus = .cancelled ∧ doc.status = .cancelled
    · rw [if_pos hc, if_pos hc]
      rfl
    · rw [if_neg hc, if_neg hc]
      exact .inr ⟨_, rfl⟩

theorem acceptPartial_follows {c : Partial} (hid : doc.logicalId = c.id)
    (hp : Proper c.id doc.toRecord) (hv : (Call.acceptPartial c).Valid) :
    Follows (exec (.acceptPartial c) now (some doc.toRecord)) (.acceptPartial c)
      (acceptPartial cfg c doc) := by
  obtain ⟨d, hd⟩ := Option.isSome_iff_exists.mp hv.2.2.2
  unfold acceptPartial
  rw [exec, execPartial]
  rcases authorize_cases doc none (some c.provider) with ⟨⟨f, hf⟩, hparty⟩ | ⟨hok, -, hprov⟩
  · rw [hf]
    have hprov : ¬Party (some c.provider) doc.provider := fun h => hparty ⟨by simp [Party], h⟩
    exact .inr ⟨_, if_pos hprov⟩
  rw [hok, if_neg (not_not.mpr hprov)]
  simp only
  by_cases hm : doc.status = .matched
  swap
  · rw [if_pos hm, if_pos hm]
    exact .inr ⟨_, rfl⟩
  rw [if_neg (not_not.mpr hm), if_neg (not_not.mpr hm)]
  by_cases hknown : c.sequence = (doc.partialSequence : ℤ) - 1 ∧ c.digest = doc.partialDigest
  · rw [if_pos hknown, if_pos hknown]
    rfl
  rw [if_neg hknown, if_neg hknown]
  by_cases hseq : c.sequence = doc.partialSequence
  swap
  · rw [if_pos hseq, if_pos hseq]
    exact .inr ⟨_, rfl⟩
  rw [if_neg (not_not.mpr hseq), if_neg (not_not.mpr hseq)]
  have hnew : ∀ items, postFrame c doc.toRecord = .ok items →
      ∀ i ∈ items, ∀ j ∈ doc.deliveries, j.eventId ≠ i.eventId := by
    intro items hitems i hi j hj heq
    have hx : exec (.acceptPartial c) now (some doc.toRecord) = .ok (.accepted false,
        some { doc.toRecord with
          partialSequence := doc.partialSequence + 1, partialDigest := c.digest,
          deliveries := doc.deliveries ++ items }) := by
      rw [exec, execPartial, if_neg (not_not.mpr hprov), if_neg (not_not.mpr hm), if_neg hknown,
        if_neg (not_not.mpr hseq), hitems]
      rfl
    have hkeys := (proper_edit [] rfl (edits_of_exec hx) hp).keys
    rw [List.map_append, List.nodup_append'] at hkeys
    exact hkeys.2.2 (List.mem_map_of_mem hj) (heq ▸ List.mem_map_of_mem hi)
  rw [hd]
  simp only
  unfold postFrame at hnew ⊢
  simp only [hd, Option.all_some] at hnew ⊢
  by_cases hev : (d.event.any fun e => e.sequence = some c.sequence ∧ e.requestId = some c.id) = true
  · simp only [hev, Bool.not_true, Bool.false_eq_true, if_false, if_true] at hnew ⊢
    cases happ : appendDelivery cfg doc (some d) .PARTIAL doc.requester with
    | error f =>
      refine (appendDelivery_error (by decide) hp.requester (hid ▸ hnew) happ).imp id ?_
      rintro ⟨g, hg⟩
      rw [hid] at hg
      exact ⟨g, by rw [hg]; rfl⟩
    | ok doc' =>
      obtain ⟨items, hitems, rfl⟩ := appendDelivery_post happ
      rw [hid] at hitems
      rw [hitems]
      rfl
  · simp only [Bool.not_eq_true _ ▸ hev, Bool.not_false, if_true, Bool.false_eq_true, if_false]
    exact .inr ⟨_, rfl⟩

/-- Acknowledging the first item with an id is acknowledging every item with it, if there is one. -/
theorem acknowledge_map {eventId : JsString} : ∀ {l : List OutboxItem},
    (l.map OutboxItem.eventId).Nodup → acknowledge eventId now l = l.map fun i =>
      if i.eventId = eventId then { i with acknowledgedAt := some now } else i
  | [], _ => rfl
  | i :: l, h => by
    obtain ⟨hi, hl⟩ := List.nodup_cons.mp h
    rw [acknowledge, List.map_cons]
    split
    · next hid =>
      congr 1
      symm
      rw [List.map_congr_left (g := id), List.map_id]
      intro j hj
      have hne : j.eventId ≠ eventId := by
        rintro rfl
        exact hi (hid ▸ List.mem_map_of_mem hj)
      rw [if_neg hne, id]
    · rw [acknowledge_map hl]

theorem acknowledgeDelivery_follows {c : Acknowledgement} (hp : Proper id doc.toRecord) :
    Follows (exec (.acknowledgeDelivery c) now (some doc.toRecord)) (.acknowledgeDelivery c)
      (acknowledgeDelivery c now doc) := by
  unfold acknowledgeDelivery
  rw [exec, execAcknowledge]
  cases hfind : doc.deliveries.find? fun x => x.eventId = c.eventId with
  | none =>
    have hnone : (doc.deliveries.find? fun i => i.eventId = c.eventId ∧ i.recipient = c.recipient) =
        none := by
      rw [List.find?_eq_none] at hfind ⊢
      intro i hi hc
      exact hfind i hi (decide_eq_true (of_decide_eq_true hc).1)
    rw [hnone]
    exact .inr ⟨_, rfl⟩
  | some i =>
    have hid : i.eventId = c.eventId := by simpa using List.find?_some hfind
    rw [Sqlite.find_item hp.keys (List.mem_of_find?_eq_some hfind) hid]
    by_cases hr : i.recipient = c.recipient
    · simp only [hr, ne_eq, not_true_eq_false, if_false, if_true]
      split
      · rfl
      · rw [acknowledge_map hp.keys]
        rfl
    · simp only [ne_eq, hr, not_false_eq_true, if_true, if_false]
      exact .inr ⟨_, rfl⟩

/-! ### Calls -/

theorem packed_error (h : packed cfg doc = .error f) :
    f.full = true := by
  unfold packed at h
  simp only at h
  split at h
  · cases h
    decide
  · cases h

theorem reserveNeed_follows (cfg : Config) {c : Reservation} (now : Time)
    (hv : (Call.reserveNeed c).Valid) :
    match reserveNeed cfg c now with
    | .error f => f.full = true ∨ ∃ g, post c.id .NEED c.provider c.delivery = .error g
    | .ok doc => doc.logicalId = c.id ∧
        exec (.reserveNeed c) now none = .ok (.reserved, some doc.toRecord) := by
  obtain ⟨hid, hall, hpaid⟩ := hv
  have hprov : nonempty c.provider = true := List.all_eq_true.mp hall _ (by simp)
  have hfits : ¬(c.paidAuthorization.any fun p => !PaidAuthorization.fits p c) = true := by
    cases hp : c.paidAuthorization with
    | none => simp
    | some p =>
      rw [hp] at hpaid
      simpa using hpaid
  unfold reserveNeed
  rw [if_neg (by simp [hid, hall]), if_neg hfits]
  cases happ : appendDelivery cfg (freshDoc c now) c.delivery .NEED c.provider with
  | error f =>
    refine appendDelivery_error (by decide) hprov ?_ happ
    intro items _ i _ j hj
    cases hj
  | ok doc =>
    obtain ⟨items, hitems, hdoc⟩ := appendDelivery_post happ
    simp only
    cases hpack : packed cfg doc with
    | error f => exact .inl (packed_error hpack)
    | ok doc' =>
      obtain rfl := packed_ok hpack
      rw [hdoc]
      refine ⟨rfl, ?_⟩
      rw [exec, execReserve, show post c.id .NEED c.provider c.delivery = .ok items from hitems]
      rfl

/-- The checks before `mutate` are those of a sane call; an acknowledgement may name no NEED. -/
theorem arguments_sane (hv : c.Valid) (hc : c.reserves = false) :
    (∃ f, arguments c = .error f) ∧ (c.sane = false ∨ key c = []) ∨
      arguments c = .ok () ∧ c.sane = true := by
  cases c with
  | reserveNeed c => cases hc
  | acceptPartial c =>
    obtain ⟨-, hprov, hdig, -⟩ := hv
    by_cases hs : isSafeInteger c.sequence = true ∧ 0 ≤ c.sequence
    · refine .inr ⟨?_, decide_eq_true hs⟩
      rw [arguments, if_neg (by simp [hprov]), if_neg]
      simp [hs.1, hs.2, hdig]
    · refine .inl ⟨⟨⟨400, "invalid_partial_sequence"⟩, ?_⟩, .inl (decide_eq_false hs)⟩
      rw [arguments, if_neg (by simp [hprov]), if_pos]
      by_contra hn
      rw [not_or, not_or] at hn
      exact hs ⟨by simpa using hn.1, not_lt.mp hn.2.1⟩
  | transitionNeed c =>
    by_cases hto : c.toStatus = .matched
    · exact .inl ⟨⟨_, if_pos hto⟩, .inl (decide_eq_false (not_not.mpr hto))⟩
    · exact .inr ⟨if_neg hto, decide_eq_true hto⟩
  | acknowledgeDelivery c =>
    obtain ⟨hid, hrec⟩ := hv
    cases hn : needOfEvent c.eventId with
    | error f =>
      refine .inl ⟨⟨f, ?_⟩, .inr ?_⟩
      · rw [arguments, if_neg (by simp [hid, hrec]), hn]
        rfl
      · rw [key, hn]
        rfl
    | ok id =>
      refine .inr ⟨?_, rfl⟩
      rw [arguments, if_neg (by simp [hid, hrec]), hn]
      rfl

theorem callback_follows (cfg : Config) (now : Time) (hid : doc.logicalId = key c)
    (hp : Proper (key c) doc.toRecord) (hv : c.Valid) (hs : c.sane = true)
    (hc : c.reserves = false) :
    Follows (exec c now (some doc.toRecord)) c (callback cfg now doc c) := by
  cases c with
  | reserveNeed c => cases hc
  | acceptPartial c => exact acceptPartial_follows hid hp hv
  | transitionNeed c => exact transitionNeed_follows hid hp (of_decide_eq_true hs)
  | acknowledgeDelivery c => exact acknowledgeDelivery_follows hp

/-- A call on a ledger that nobody else is calling. -/
def call (cfg : Config) (c : Call) (now : Time) (docs : Docs) : Except Fault Answer × Docs :=
  let result := (client cfg).perform c now docs
  (result.1.map fun p => answerOf p.1 c, result.2)

theorem recordsOf_update (docs : Docs) (id : JsString) (d : Doc) :
    recordsOf (Function.update docs id (some d)) =
      Function.update (recordsOf docs) id (some d.toRecord) := by
  funext id'
  by_cases h : id' = id
  · subst h
    rw [recordsOf, Function.update_self, Function.update_self]
    rfl
  · rw [recordsOf, Function.update_of_ne h, Function.update_of_ne h, recordsOf]

/-- What a call writes over proper records is proper. -/
theorem tidy_update {a : Answer} {d : Doc} (ht : Tidy docs) (hv : c.Valid)
    (hx : exec c now (recordsOf docs (key c)) = .ok (a, some d.toRecord))
    (hd : d.logicalId = key c) : Tidy (Function.update docs (key c) (some d)) := by
  have hid : callId c (key c) = key c := by cases c <;> rfl
  have hp : Proper (key c) d.toRecord := by
    cases hold : docs (key c) with
    | none =>
      rw [recordsOf, hold] at hx
      exact hid ▸ proper_create _ hv (creates_of_exec hx)
    | some doc =>
      rw [recordsOf, hold] at hx
      exact proper_edit _ hid (edits_of_exec hx) (ht.proper _ _ hold)
  refine ⟨fun id e he => ?_, fun id e he => ?_⟩ <;> by_cases h : id = key c
  · subst h
    rw [Function.update_self] at he
    cases he
    exact hd
  · rw [Function.update_of_ne h] at he
    exact ht.logicalId _ _ he
  · subst h
    rw [Function.update_self] at he
    cases he
    exact hp
  · rw [Function.update_of_ne h] at he
    exact ht.proper _ _ he

/-- A refusal is what `told` says, or lack of room. -/
theorem obeys_error {told : Except Fault (Answer × Option Record)} {v : View}
    (h : f.full = true ∨ ∃ g, told = .error g) : Obeys told id v (.error f) v := by
  rcases h with hfull | ⟨g, rfl⟩
  · cases told with
    | error g => exact rfl
    | ok p => exact ⟨hfull, rfl⟩
  · exact rfl

theorem call_obeys_reserve {c : Reservation} (ht : Tidy docs) (hv : (Call.reserveNeed c).Valid) :
    Obeys (exec (.reserveNeed c) now (recordsOf docs c.id)) c.id (recordsOf docs)
        (call cfg (.reserveNeed c) now docs).1 (recordsOf (call cfg (.reserveNeed c) now docs).2) ∧
      Tidy (call cfg (.reserveNeed c) now docs).2 := by
  have hfollows := reserveNeed_follows cfg now hv
  unfold call Client.perform
  simp only [client, plan, key]
  cases hres : reserveNeed cfg c now with
  | error f =>
    rw [hres] at hfollows
    refine ⟨obeys_error (hfollows.imp id ?_), ht⟩
    rintro ⟨g, hg⟩
    cases hr : recordsOf docs c.id with
    | some r => exact ⟨_, rfl⟩
    | none => exact ⟨g, by rw [exec, execReserve, hg]; rfl⟩
  | ok doc =>
    rw [hres] at hfollows
    obtain ⟨hid, hx⟩ := hfollows
    cases hold : docs c.id with
    | some old =>
      have hr : recordsOf docs c.id = some old.toRecord := by rw [recordsOf, hold]; rfl
      rw [hr]
      simp only [Except.map]
      exact ⟨rfl, ht⟩
    | none =>
      have hr : recordsOf docs c.id = none := by rw [recordsOf, hold]; rfl
      rw [hr, hx]
      simp only [Except.map]
      exact ⟨⟨rfl, recordsOf_update ..⟩,
        tidy_update (c := .reserveNeed c) ht hv (by rw [key, hr]; exact hx) hid⟩

/-- OBEYS: on tidy documents a valid call answers and writes what `perform` says, unless there is no
    room, and leaves the documents tidy. -/
theorem call_obeys (cfg : Config) (now : Time) (ht : Tidy docs) (hv : c.Valid) :
    Obeys (perform c now (recordsOf docs (key c))) (key c) (recordsOf docs)
        (call cfg c now docs).1 (recordsOf (call cfg c now docs).2) ∧
      Tidy (call cfg c now docs).2 := by
  cases hc : c.reserves with
  | true =>
    cases c with
    | reserveNeed c => exact call_obeys_reserve ht hv
    | _ => cases hc
  | false =>
    obtain ⟨hrefused, hplan⟩ := @plan_mutates cfg c now hc
    -- an id that names no NEED has no record
    have hno : validNeedId (key c) = false → ∃ g, exec c now (recordsOf docs (key c)) = .error g := by
      intro hbad
      cases hd : docs (key c) with
      | some d => exact absurd (ht.proper _ _ hd).need (by simp [hbad])
      | none =>
        rw [recordsOf, hd]
        cases c with
        | reserveNeed c => cases hc
        | _ => exact ⟨_, rfl⟩
    unfold call Client.perform
    simp only [client]
    rcases arguments_sane hv hc with ⟨⟨f, harg⟩, hbad⟩ | ⟨harg, hs⟩
    · rw [hrefused f harg]
      refine ⟨obeys_error (.inr ?_), ht⟩
      rcases hbad with hs | hk
      · exact ⟨_, by rw [perform, if_neg (by simp [hs])]⟩
      · obtain ⟨g, hg⟩ := hno (by rw [hk]; decide)
        unfold perform
        split
        · exact ⟨g, hg⟩
        · exact ⟨_, rfl⟩
    · rw [hplan harg, perform, if_pos hs]
      cases hid : validNeedId (key c) with
      | false =>
        obtain ⟨g, hg⟩ := hno hid
        rw [hg]
        exact ⟨rfl, ht⟩
      | true =>
        rw [if_pos rfl]
        simp only
        cases hd : docs (key c) with
        | none =>
          have hr : recordsOf docs (key c) = none := by rw [recordsOf, hd]; rfl
          rw [hr]
          refine ⟨obeys_error (.inr ?_), ht⟩
          cases c with
          | reserveNeed c => cases hc
          | _ => exact ⟨_, rfl⟩
        | some doc =>
          have hr : recordsOf docs (key c) = some doc.toRecord := by rw [recordsOf, hd]; rfl
          have hlid := ht.logicalId _ _ hd
          have hfollows := callback_follows cfg now hlid (ht.proper _ _ hd) hv hs hc
          rw [hr]
          simp only [edit, hlid, ne_eq, not_true_eq_false, if_false]
          cases hcb : callback cfg now doc c with
          | error f =>
            rw [hcb] at hfollows
            exact ⟨obeys_error hfollows, ht⟩
          | ok o =>
            rw [hcb] at hfollows
            cases o with
            | none =>
              rw [show exec c now (some doc.toRecord) = _ from hfollows]
              exact ⟨⟨rfl, rfl⟩, ht⟩
            | some next =>
              have hx : exec c now (some doc.toRecord) = .ok (answerOf true c, some next.toRecord) :=
                hfollows
              simp only
              cases hpack : packed cfg { next with version := doc.version + 1 } with
              | error f => exact ⟨obeys_error (.inl (packed_error hpack)), ht⟩
              | ok d =>
                obtain rfl := packed_ok hpack
                rw [hx]
                refine ⟨⟨rfl, recordsOf_update ..⟩, tidy_update ht hv (by rw [hr]; exact hx) ?_⟩
                exact (congrArg Doc.logicalId (callback_frame hcb)).trans hlid

end Cosmos

end Truyn.Ledger
