import Truyn.Ledger.Outbox

/-! ledger:outbox-room | every event of every outbox can be acknowledged

    What a document promises about its outbox (`Sound`): each item has the id of its event and a
    recipient, no two items have the same id, and the document fits with 24 bytes to spare for every
    pending item. Each write keeps the promise (`sound_of_runs`). An acknowledgement adds 22 bytes
    for the date and at most one for the version, so it fits (`edit_acknowledge`), and it leaves a
    document that keeps the promise again. -/

namespace Truyn.Ledger.Outbox
open Async Cas Cosmos

/-- An outbox item that its recipient can acknowledge. -/
structure Acknowledgeable (id : JsString) (i : OutboxItem) : Prop where
  eventId : i.eventId = Ledger.eventId i.kind id i.event
  named : Named i.kind i.event
  safe : i.kind = .PARTIAL → ∀ n : ℤ, i.event.sequence = some n → isSafeInteger n = true
  recipient : nonempty i.recipient = true

/-- An outbox of acknowledgeable items with different ids. -/
structure Listed (id : JsString) (l : List OutboxItem) : Prop where
  items : ∀ i ∈ l, Acknowledgeable id i
  keys : (l.map OutboxItem.eventId).Nodup

/-- The number of items that are not acknowledged. -/
def pendings (l : List OutboxItem) : ℕ := l.countP fun x => x.acknowledgedAt = none

/-- What a stored document promises about its outbox. -/
structure Sound (L : Limits) (id : JsString) (s : StoredNeed) : Prop where
  logicalId : s.logicalId = id
  valid : validNeedId id = true
  listed : Listed id s.deliveries
  fits : byteLength (text L.hash s) + pendings s.deliveries * 24 + 128 ≤ L.maxDocumentBytes

/-! ### What the callbacks leave in the outbox -/

theorem listed_nil (id : JsString) : Listed id [] where
  items := fun _ h => by cases h
  keys := List.nodup_nil

variable {doc next : Doc} {id : JsString} {cfg : Config} {now : Time} {L : Limits} {s : StoredNeed}

/-- Acknowledging changes nothing that the ids depend on. -/
theorem Listed.of_pending {l l' : List OutboxItem} (hl : Listed id l)
    (h : l'.map OutboxItem.pending = l.map OutboxItem.pending) : Listed id l' := by
  constructor
  · intro i hi
    have hmem : i.pending ∈ l.map OutboxItem.pending := h ▸ List.mem_map_of_mem hi
    obtain ⟨j, hj, hji⟩ := List.mem_map.mp hmem
    obtain ⟨hid, hr, hk, he⟩ : j.eventId = i.eventId ∧ j.recipient = i.recipient ∧
        j.kind = i.kind ∧ j.event = i.event := by
      simpa [OutboxItem.pending] using hji
    have ha := hl.items j hj
    exact ⟨by rw [← hid, ← hk, ← he]; exact ha.eventId, by rw [← hk, ← he]; exact ha.named,
      by rw [← hk, ← he]; exact ha.safe, by rw [← hr]; exact ha.recipient⟩
  · have hkeys : ∀ m : List OutboxItem, m.map OutboxItem.eventId =
        (m.map OutboxItem.pending).map OutboxItem.eventId := by
      intro m
      rw [List.map_map]
      rfl
    rw [hkeys l', h, ← hkeys l]
    exact hl.keys

/-- A delivery that is appended gets an id of its own. -/
theorem appendDelivery_listed {doc' : Doc} {delivery : Option Delivery} {kind : Kind}
    {recipient : JsString} (hl : Listed doc.logicalId doc.deliveries)
    (hseq : kind = .PARTIAL → ∃ n : ℕ, isSafeInteger n = true ∧ ∀ d ∈ delivery, ∀ e ∈ d.event,
      e.sequence = some (n : ℤ)) (h : appendDelivery cfg doc delivery kind recipient = .ok doc') :
    doc'.logicalId = doc.logicalId ∧ Listed doc.logicalId doc'.deliveries := by
  unfold appendDelivery at h
  rcases delivery with _ | ⟨recipient', kind', event⟩
  · cases h
    exact ⟨rfl, hl⟩
  simp only at h
  split at h
  · cases h
  next hk =>
  obtain ⟨rfl, rfl⟩ : kind' = kind ∧ recipient' = recipient := by
    simpa only [ne_eq, not_or, not_not] using hk
  split at h
  · cases h
  split at h
  · cases h
  next item hitem =>
  split at h
  · cases h
  next hfresh =>
  cases h
  unfold deliveryFor at hitem
  split at hitem
  · cases hitem
  next e =>
  split at hitem
  · cases hitem
  next hgood =>
  split at hitem
  · cases hitem
  cases hitem
  simp only [not_or, not_not, Bool.not_eq_true', Bool.not_eq_false] at hgood
  obtain ⟨hkind, hrec, -⟩ := hgood
  refine ⟨rfl, ⟨fun i hi => ?_, ?_⟩⟩
  · rcases List.mem_append.mp hi with hi | hi
    · exact hl.items i hi
    obtain rfl := List.mem_singleton.mp hi
    have hnamed : Named kind' e := by
      cases kind' with
      | PARTIAL =>
        obtain ⟨n, -, hn⟩ := hseq rfl
        exact ⟨n, hn _ rfl _ rfl⟩
      | other s => simp at hkind
      | NEED | RESULT | REVOKE => exact trivial
    refine ⟨rfl, hnamed, fun hp m hm => ?_, hrec⟩
    obtain ⟨n, hsafe, hn⟩ := hseq hp
    have hnm : e.sequence = some (n : ℤ) := hn _ rfl _ rfl
    rw [hnm] at hm
    exact Option.some.inj hm ▸ hsafe
  · rw [List.map_append, List.map_singleton]
    refine List.nodup_append.mpr ⟨hl.keys, List.pairwise_singleton _ _, ?_⟩
    rintro a ha b hb rfl
    obtain ⟨j, hj, hja⟩ := List.mem_map.mp ha
    refine hfresh (List.any_eq_true.mpr ⟨j, hj, decide_eq_true ?_⟩)
    rw [hja]
    exact List.mem_singleton.mp hb

theorem transitionNeed_listed {c : Transition} (hl : Listed doc.logicalId doc.deliveries)
    (h : transitionNeed cfg c now doc = .ok (some next)) :
    next.logicalId = doc.logicalId ∧ Listed doc.logicalId next.deliveries := by
  unfold transitionNeed at h
  split at h
  · cases h
  split at h
  · split at h <;> cases h
  split at h
  · cases h
  split at h
  · cases h
  next doc₁ happ =>
  cases h
  have hd : doc₁.logicalId = doc.logicalId ∧ Listed doc.logicalId doc₁.deliveries := by
    unfold appendTerminal at happ
    split at happ
    · exact appendDelivery_listed hl (fun hp => absurd hp (by decide)) happ
    · exact appendDelivery_listed hl (fun hp => absurd hp (by decide)) happ
    · cases happ
      exact ⟨rfl, hl⟩
  exact hd

theorem acceptPartial_listed {c : Partial} (hl : Listed doc.logicalId doc.deliveries)
    (hsafe : isSafeInteger c.sequence = true) (h : acceptPartial cfg c doc = .ok (some next)) :
    next.logicalId = doc.logicalId ∧ Listed doc.logicalId next.deliveries := by
  unfold acceptPartial at h
  split at h
  · cases h
  split at h
  · cases h
  split at h
  · cases h
  split at h
  · cases h
  next hseq =>
  split at h
  · cases h
  next d hd =>
  split at h
  · cases h
  next hev =>
  split at h
  · cases h
  next doc₁ happ =>
  cases h
  -- the frame has the number that the record waits for
  have hn : c.sequence = (doc.partialSequence : ℤ) := not_not.mp hseq
  have hnumber : ∀ d' ∈ some d, ∀ e ∈ d'.event, e.sequence = some (doc.partialSequence : ℤ) := by
    rintro d' ⟨⟩ e he
    simp only [Option.any_eq_true, Bool.not_eq_true', Bool.not_eq_false, decide_eq_true_eq] at hev
    obtain ⟨e', he', hes, -⟩ := hev
    rw [he'] at he
    cases he
    rw [hes, hn]
  have hd : doc₁.logicalId = doc.logicalId ∧ Listed doc.logicalId doc₁.deliveries :=
    appendDelivery_listed hl (fun _ => ⟨doc.partialSequence, hn ▸ hsafe, hnumber⟩) happ
  exact hd

theorem acknowledgeDelivery_listed {c : Acknowledgement} (hl : Listed doc.logicalId doc.deliveries)
    (h : acknowledgeDelivery c now doc = .ok (some next)) :
    next.logicalId = doc.logicalId ∧ Listed doc.logicalId next.deliveries := by
  unfold acknowledgeDelivery at h
  split at h
  · cases h
  split at h
  · cases h
  split at h
  · cases h
  cases h
  exact ⟨rfl, hl.of_pending (map_acknowledge _ _ _)⟩

theorem callback_listed {c : Call} (hargs : arguments c = .ok ())
    (hl : Listed doc.logicalId doc.deliveries) (h : callback cfg now doc c = .ok (some next)) :
    next.logicalId = doc.logicalId ∧ Listed doc.logicalId next.deliveries := by
  cases c with
  | reserveNeed c => cases h
  | transitionNeed c => exact transitionNeed_listed hl h
  | acceptPartial c =>
    refine acceptPartial_listed hl ?_ h
    simp only [arguments] at hargs
    split at hargs
    · cases hargs
    split at hargs
    · cases hargs
    next hgood =>
    simp only [not_or, Bool.not_eq_true', Bool.not_eq_false] at hgood
    exact hgood.1
  | acknowledgeDelivery c => exact acknowledgeDelivery_listed hl h

/-! ### Every write keeps the promise -/

theorem packed_fits {d : Doc} (h : packed cfg doc = .ok d) :
    d = doc ∧ cfg.bytes doc + pendings doc.deliveries * 24 + 128 ≤ cfg.maxDocumentBytes := by
  refine ⟨packed_ok h, ?_⟩
  simp only [packed] at h
  split at h
  · cases h
  next hle => exact Nat.le_of_not_lt hle

theorem sound_plan {r : Request} {now : Clock} (h : plan L r now = .ok (some s)) :
    Sound L (key r) s := by
  cases r with
  | ledger c paidJson =>
    simp only [plan] at h
    cases c with
    | reserveNeed c =>
      simp only [Cosmos.plan, Cosmos.reserveNeed] at h
      split at h
      · cases h
      next hargs =>
      split at h
      · cases h
      split at h
      · cases h
      next doc happ =>
      cases hpk : packed (config L (fresh paidJson)) doc with
      | error f =>
        rw [hpk] at h
        cases h
      | ok d =>
        rw [hpk] at h
        cases h
        obtain ⟨rfl, hfits⟩ := packed_fits hpk
        have hnil : Listed (freshDoc c now.time).logicalId (freshDoc c now.time).deliveries :=
          listed_nil _
        obtain ⟨hid, hl⟩ := appendDelivery_listed hnil (fun hp => absurd hp (by decide)) happ
        have hvalid : validNeedId c.id = true := by
          by_contra hne
          exact hargs (.inl (by simp [hne]))
        exact ⟨hid, hvalid, hl, hfits⟩
    | _ =>
      simp only [Cosmos.plan] at h
      split at h
      · cases h
      split at h <;> cases h
  | compactNeed id requester =>
    simp only [plan] at h
    split at h <;> cases h
  | commitRecoveredResult c =>
    simp only [plan] at h
    split at h
    · cases h
    split at h <;> cases h

/-- A version that was packed keeps the promise. -/
theorem sound_write {version : ℕ} {s' : StoredNeed} {result : Except Fault (Option StoredNeed)}
    (hs : Sound L id s) (hstep : ∀ next, result = .ok (some next) →
      next.logicalId = s.logicalId ∧ Listed s.logicalId next.deliveries)
    (h : write L version result = .ok (some s')) : Sound L id s' := by
  rcases result with f | _ | next
  · cases h
  · cases h
  obtain ⟨hid, hl⟩ := hstep next rfl
  simp only [write] at h
  cases hpk : packed (config L next.toExtras) { next.toDoc with version := version + 1 } with
  | error f =>
    rw [hpk] at h
    cases h
  | ok d =>
    rw [hpk] at h
    cases h
    obtain ⟨rfl, hfits⟩ := packed_fits hpk
    exact ⟨hid.trans hs.logicalId, hs.valid, hs.logicalId ▸ hl, hfits⟩

theorem compactNeed_listed {requester : JsString} {next : StoredNeed}
    (hl : Listed s.logicalId s.deliveries) (h : compactNeed requester now s = .ok (some next)) :
    next.logicalId = s.logicalId ∧ Listed s.logicalId next.deliveries := by
  unfold compactNeed at h
  split at h
  · cases h
  split at h
  · cases h
  split at h
  · cases h
  cases h
  exact ⟨rfl, hl⟩

theorem commitRecoveredResult_listed {c : Recovery} {next : StoredNeed}
    (hl : Listed s.logicalId s.deliveries) (h : commitRecoveredResult L c now s = .ok (some next)) :
    next.logicalId = s.logicalId ∧ Listed s.logicalId next.deliveries := by
  unfold commitRecoveredResult at h
  split at h
  · cases h
  split at h
  · split at h <;> cases h
  split at h
  · cases h
  split at h
  · cases h
  split at h
  · cases h
  next d happ =>
  cases h
  have hd : d.logicalId = s.logicalId ∧ Listed s.logicalId d.deliveries :=
    appendDelivery_listed hl (fun hp => absurd hp (by decide)) happ
  exact hd

theorem sound_edit {r : Request} {now : Clock} {s' : StoredNeed} (hs : Sound L id s)
    (hadm : (client L).Admits r) (h : edit L r now s = .ok (some s')) :
    Sound L id s' := by
  have hl : Listed s.logicalId s.deliveries := hs.logicalId ▸ hs.listed
  cases r with
  | ledger c paidJson =>
    have hargs : arguments c = .ok () := by
      obtain ⟨t, hplan⟩ := hadm
      simp only [client, plan] at hplan
      cases c with
      | reserveNeed c => rfl
      | _ =>
        simp only [Cosmos.plan] at hplan
        split at hplan
        · cases hplan
        next harg => exact harg
    simp only [edit, Cosmos.edit] at h
    split at h
    · cases h
    cases hcb : callback (config L s.toExtras) now.time s.toDoc c with
    | error f =>
      rw [hcb] at h
      cases h
    | ok o =>
      rw [hcb] at h
      cases o with
      | none => cases h
      | some next =>
        have hw : write L s.version (.ok (some ⟨next, s.toExtras⟩)) = .ok (some s') := by
          simp only at h
          simp only [write]
          cases hpk : packed (config L s.toExtras) { next with version := s.version + 1 } with
          | error f =>
            rw [hpk] at h
            cases h
          | ok d =>
            rw [hpk] at h
            exact h
        refine sound_write hs ?_ hw
        rintro n ⟨⟩
        exact callback_listed hargs hl hcb
  | compactNeed i requester =>
    simp only [edit] at h
    split at h
    · cases h
    · exact sound_write hs (fun next hn => compactNeed_listed hl hn) h
  | commitRecoveredResult c =>
    simp only [edit] at h
    split at h
    · cases h
    · exact sound_write hs (fun next hn => commitRecoveredResult_listed hl hn) h

/-- In every run every stored version of a document keeps the promise. -/
theorem sound_of_runs {s : Sys (Cas.World JsString Request Clock StoredNeed Fault)
      (Cas.Task Request Clock StoredNeed)} (h : Runs (machine L) free Cas.init s) (id : JsString) :
    ∀ v ∈ s.shared.docs id, Sound L id v.doc := by
  have hall : ∀ l : List (Version Request Clock StoredNeed), (client L).Lineage id l →
      ∀ v ∈ l, Sound L id v.doc := by
    intro l hl
    induction hl with
    | nil =>
      intro v hv
      cases hv
    | create hc =>
      intro v hv
      obtain rfl := List.mem_singleton.mp hv
      exact hc.1 ▸ sound_plan hc.2
    | edit _ he ih =>
      intro v hv
      rcases List.mem_cons.mp hv with rfl | hv
      · exact sound_edit (ih _ List.mem_cons_self) he.2.1 he.2.2
      · exact ih v hv
  exact hall _ (lineage_of_runs (client L) h id)

end Truyn.Ledger.Outbox
