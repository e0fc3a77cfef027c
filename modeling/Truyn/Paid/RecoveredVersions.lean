import Truyn.Paid.Recovered

/-! paid:recovered-versions | what the calls on a NEED leave of its document

    What no call changes: whose NEED the document is of, and, once it is not matched any more, its
    status, its RESULT and its usage record (`Follows`). A document has at most one RESULT, and its
    usage record, if any, has the RESULT's digest (`Matches`). Every callback makes a version that
    matches, and that follows the one it has read, so all versions agree. -/

namespace Truyn.Paid
open Ledger Ledger.Cosmos Programs
open Checks (error_ok bind_ok)

variable {P : Signatures} {cfg : NeedConfig}

/-! ### What is stored of a value -/

/-- What is written as JSON is read back, and has the digest that was recorded. -/
theorem eventDigest_resultEvent (v : Json) : eventDigest P (resultEvent v) = canonicalDigest P v := by
  rw [eventDigest, resultEvent, Json.parse_text]

variable {doc a b next : NeedDocument} {l m items : List OutboxItem} {s : Submission}
  {o : NeedOutside}

/-- A usage record tells the digest of the RESULT. -/
theorem recovery_digest {effect : Option EffectRecord} {u : UsageRecord}
    (h : recovery P s effect = .ok u) : canonicalDigest P s.event = .ok u.resultDigest := by
  unfold recovery at h
  split at h
  · cases h
  split at h
  · cases h
  split at h
  · cases h
  split at h
  · cases h
  unfold usageOf at h
  obtain ⟨digest, -, h⟩ := bind_ok.mp h
  obtain ⟨-, h⟩ := error_ok.mp h
  obtain ⟨-, h⟩ := error_ok.mp h
  obtain ⟨metadata, -, h⟩ := bind_ok.mp h
  obtain ⟨expected, -, h⟩ := bind_ok.mp h
  obtain ⟨-, h⟩ := error_ok.mp h
  obtain ⟨d, hd, rfl⟩ := Checks.map_ok.mp h
  exact hd

theorem records_ok {u : UsageRecord} {refusal : Fault} {i : OutboxItem} :
    records P u doc refusal = .ok i ↔ doc.recoveredUsage = some u ∧ results doc = [i] ∧
      eventDigest P i.event = .ok u.resultDigest := by
  unfold records
  rw [error_ok, not_not]
  refine and_congr_right fun _ => ?_
  constructor
  · intro h
    split at h
    · next terminal hresults =>
      obtain ⟨digest, hdigest, h⟩ := bind_ok.mp h
      obtain ⟨heq, h⟩ := error_ok.mp h
      cases h
      exact ⟨hresults, (not_not.mp heq) ▸ hdigest⟩
    · cases h
  · rintro ⟨hresults, hdigest⟩
    rw [hresults]
    show (eventDigest P i.event >>= fun digest => _) = _
    rw [hdigest]
    exact if_neg (not_not.mpr rfl)

/-! ### Versions -/

/-- Whose NEED the document is of. -/
def needOf (doc : NeedDocument) :
    JsString × JsString × JsString × JsString × JsString × JsString × Option Json :=
  (doc.logicalId, doc.mode, doc.requester, doc.provider, doc.scope, doc.fingerprint,
    originalNeed doc)

/-- The document has at most one RESULT; a usage record is that of the RESULT. -/
structure Matches (P : Signatures) (doc : NeedDocument) : Prop where
  one : (results doc).length ≤ 1
  early : doc.status = .matched → results doc = []
  usage : ∀ u, doc.recoveredUsage = some u → doc.status = .completed ∧
    ∃ i, results doc = [i] ∧ eventDigest P i.event = .ok u.resultDigest

/-- A newer version is of the same NEED, and settles nothing again. -/
structure Follows (newer older : NeedDocument) : Prop where
  need : needOf newer = needOf older
  settled : older.status ≠ .matched → newer.status = older.status ∧
    newer.recoveredUsage = older.recoveredUsage ∧
    (results newer).map OutboxItem.pending = (results older).map OutboxItem.pending

theorem Follows.trans {c : NeedDocument} (h : Follows a b) (h' : Follows b c) : Follows a c := by
  refine ⟨h.need.trans h'.need, fun hc => ?_⟩
  obtain ⟨hstatus, husage, hresults⟩ := h'.settled hc
  obtain ⟨hstatus', husage', hresults'⟩ := h.settled (hstatus ▸ hc)
  exact ⟨hstatus'.trans hstatus, husage'.trans husage, hresults'.trans hresults⟩

/-- A usage record stays. -/
theorem Follows.usage {newer older : NeedDocument} (h : Follows newer older) (hm : Matches P older)
    {u : UsageRecord} (hu : older.recoveredUsage = some u) : newer.recoveredUsage = some u := by
  have hcompleted := (hm.usage u hu).1
  have hne : older.status ≠ .matched := by
    rw [hcompleted]
    decide
  rw [(h.settled hne).2.1, hu]

theorem bound_eq (h : needOf a = needOf b) (requester provider : JsString) (need : Json) :
    bound P requester provider need a = bound P requester provider need b := by
  simp only [needOf, Prod.mk.injEq] at h
  obtain ⟨-, hmode, hrequester, hprovider, hscope, hfingerprint, horiginal⟩ := h
  unfold bound
  rw [hmode, hrequester, hprovider, hscope, hfingerprint, horiginal]

/-! ### The outbox -/

/-- An item is acknowledged, or a PARTIAL compacted. -/
structure Same (a b : OutboxItem) : Prop where
  kind : a.kind = b.kind
  rest : b.kind ≠ .PARTIAL → a.pending = b.pending

theorem of_pending {a b : OutboxItem} (h : a.pending = b.pending) :
    a.kind = b.kind ∧ a.event = b.event := by
  have hkind := congrArg OutboxItem.kind h
  have hevent := congrArg OutboxItem.event h
  exact ⟨hkind, hevent⟩

theorem same_of_pending (h : l.map OutboxItem.pending = m.map OutboxItem.pending) :
    List.Forall₂ Same l m := by
  induction l generalizing m with
  | nil =>
    obtain rfl := List.map_eq_nil_iff.mp h.symm
    exact .nil
  | cons i l ih =>
    cases m with
    | nil => cases h
    | cons j m =>
      obtain ⟨hij, hl⟩ := List.cons.inj h
      exact .cons ⟨(of_pending hij).1, fun _ => hij⟩ (ih hl)

theorem same_compact : ∀ l : List OutboxItem, List.Forall₂ Same (l.map compactItem) l
  | [] => .nil
  | i :: l => by
    refine .cons ?_ (same_compact l)
    unfold compactItem
    split
    · next h =>
      simp only [compactable, decide_eq_true_eq] at h
      exact ⟨rfl, fun hne => absurd h.1 hne⟩
    · exact ⟨rfl, fun _ => rfl⟩

theorem Same.results (h : List.Forall₂ Same l m) :
    (l.filter fun d => d.kind = .RESULT).map OutboxItem.pending =
      (m.filter fun d => d.kind = .RESULT).map OutboxItem.pending := by
  induction h with
  | nil => rfl
  | @cons i j l m hij _ ih =>
    by_cases hk : j.kind = .RESULT
    · have hrest := hij.rest (by rw [hk]; decide)
      rw [List.filter_cons_of_pos (by simp [hij.kind, hk]), List.filter_cons_of_pos (by simp [hk]),
        List.map_cons, List.map_cons, ih, hrest]
    · rw [List.filter_cons_of_neg (by simp [hij.kind, hk]), List.filter_cons_of_neg (by simp [hk]), ih]

theorem Same.original (h : List.Forall₂ Same l m) :
    (l.find? fun d => d.kind = .NEED).map OutboxItem.event =
      (m.find? fun d => d.kind = .NEED).map OutboxItem.event := by
  induction h with
  | nil => rfl
  | @cons i j l m hij _ ih =>
    by_cases hk : j.kind = .NEED
    · have hevent := (of_pending (hij.rest (by rw [hk]; decide))).2
      rw [List.find?_cons_of_pos (by simp [hij.kind, hk]), List.find?_cons_of_pos (by simp [hk]),
        Option.map_some, Option.map_some, hevent]
    · rw [List.find?_cons_of_neg (by simp [hij.kind, hk]), List.find?_cons_of_neg (by simp [hk]), ih]

theorem originalNeed_eq (h : (a.deliveries.find? fun d => d.kind = .NEED).map OutboxItem.event =
      (b.deliveries.find? fun d => d.kind = .NEED).map OutboxItem.event) :
    originalNeed a = originalNeed b := by
  have hmap : ∀ doc : NeedDocument, originalNeed doc =
      ((doc.deliveries.find? fun d => d.kind = .NEED).map OutboxItem.event).bind fun e =>
        (Json.parse e.json).bind fun v => v.get (js "envelope") := fun doc => by
    rw [Option.bind_map]
    rfl
  rw [hmap, hmap, h]

theorem original_append (h : ∀ i ∈ items, i.kind ≠ .NEED) :
    (l ++ items).find? (fun d => d.kind = .NEED) = l.find? fun d => d.kind = .NEED := by
  have hnone : items.find? (fun d => d.kind = .NEED) = none :=
    List.find?_eq_none.mpr fun i hi => by simpa using h i hi
  rw [List.find?_append, hnone, Option.or_none]

theorem posts_kind {id recipient : JsString} {kind : Kind} {delivery : Option Delivery}
    (h : Posts id kind recipient delivery items) :
    items.length ≤ 1 ∧ ∀ i ∈ items, i.kind = kind := by
  cases h with
  | none => exact ⟨Nat.zero_le 1, fun i hi => by cases hi⟩
  | some he => exact ⟨Nat.le_refl 1, fun i hi => by rw [List.mem_singleton.mp hi]⟩

theorem posts_some {id recipient : JsString} {kind : Kind} {d : Delivery}
    (h : Posts id kind recipient (some d) items) :
    ∃ e, d.event = some e ∧ items = [⟨eventId kind id e, recipient, kind, e, none⟩] := by
  cases h
  exact ⟨_, rfl, rfl⟩

/-! ### What the callbacks make of a version -/

/-- The next version goes on as it should. -/
def Goes (P : Signatures) (next doc : NeedDocument) : Prop := Matches P next ∧ Follows next doc

/-- Something is appended to the outbox of a matched NEED; a RESULT only when it is completed. -/
theorem goes_append (hm : Matches P doc) (hmatched : doc.status = .matched)
    (hdeliveries : next.deliveries = doc.deliveries ++ items)
    (hfields : next.logicalId = doc.logicalId ∧ next.mode = doc.mode ∧
      next.requester = doc.requester ∧ next.provider = doc.provider ∧ next.scope = doc.scope ∧
      next.fingerprint = doc.fingerprint) (hneed : ∀ i ∈ items, i.kind ≠ .NEED)
    (hone : items.length ≤ 1) (hearly : next.status = .matched → ∀ i ∈ items, i.kind ≠ .RESULT)
    (husage : ∀ u, next.recoveredUsage = some u → next.status = .completed ∧
      ∃ i, items = [i] ∧ i.kind = .RESULT ∧ eventDigest P i.event = .ok u.resultDigest) :
    Goes P next doc := by
  have hresults : results next = items.filter fun d => d.kind = .RESULT := by
    have hnone := hm.early hmatched
    unfold results at hnone ⊢
    rw [hdeliveries, List.filter_append, hnone, List.nil_append]
  have horiginal : originalNeed next = originalNeed doc :=
    originalNeed_eq (by rw [hdeliveries, original_append hneed])
  refine ⟨⟨?_, fun h => ?_, fun u hu => ?_⟩, ?_, fun h => absurd hmatched h⟩
  · rw [hresults]
    exact (List.length_filter_le _ _).trans hone
  · rw [hresults, List.filter_eq_nil_iff]
    intro i hi
    simpa using hearly h i hi
  · obtain ⟨hstatus, i, rfl, hkind, hdigest⟩ := husage u hu
    refine ⟨hstatus, i, ?_, hdigest⟩
    rw [hresults, List.filter_cons_of_pos (by simp [hkind]), List.filter_nil]
  · obtain ⟨hid, hmode, hrequester, hprovider, hscope, hfingerprint⟩ := hfields
    unfold needOf
    rw [hid, hmode, hrequester, hprovider, hscope, hfingerprint, horiginal]

/-- Items are acknowledged or compacted. -/
theorem goes_same (hm : Matches P doc) (hsame : List.Forall₂ Same next.deliveries doc.deliveries)
    (hnext : next = { doc with deliveries := next.deliveries }) : Goes P next doc := by
  have hresults : (results next).map OutboxItem.pending = (results doc).map OutboxItem.pending :=
    Same.results hsame
  have horiginal : originalNeed next = originalNeed doc := originalNeed_eq (Same.original hsame)
  have hlength : (results next).length = (results doc).length := by
    simpa using congrArg List.length hresults
  have hstatus : next.status = doc.status := by rw [hnext]
  have husage : next.recoveredUsage = doc.recoveredUsage := by rw [hnext]
  refine ⟨⟨?_, fun h => ?_, fun u hu => ?_⟩, ?_, fun _ => ⟨hstatus, husage, hresults⟩⟩
  · rw [hlength]
    exact hm.one
  · have hnil := hm.early (hstatus ▸ h)
    rw [hnil] at hlength
    exact List.length_eq_zero_iff.mp hlength
  · rw [husage] at hu
    obtain ⟨hcompleted, i, hi, hdigest⟩ := hm.usage u hu
    rw [hi, List.map_singleton] at hresults
    obtain ⟨j, hj, hij⟩ := List.map_eq_singleton_iff.mp hresults
    refine ⟨hstatus.trans hcompleted, j, hj, ?_⟩
    rw [(of_pending hij).2]
    exact hdigest
  · unfold needOf
    rw [horiginal, hnext]

theorem announces_kind {c : Transition} {r : Record} (h : c.announces r items) :
    items.length ≤ 1 ∧ ∀ i ∈ items, i.kind ≠ .NEED := by
  unfold Transition.announces at h
  split at h
  · obtain ⟨hone, hkind⟩ := posts_kind h
    exact ⟨hone, fun i hi => by rw [hkind i hi]; decide⟩
  · obtain ⟨hone, hkind⟩ := posts_kind h
    exact ⟨hone, fun i hi => by rw [hkind i hi]; decide⟩
  · rw [h]
    exact ⟨Nat.zero_le 1, fun i hi => by cases hi⟩

/-- The calls that know nothing of the usage leave it as it is. -/
theorem ledgerUpdate_goes {c : Ledger.Call} (hadm : (client cfg.ledger).Admits c)
    (hid : doc.logicalId = key c) (hm : Matches P doc)
    (h : ledgerUpdate cfg c o doc = .ok (some next)) : Goes P next doc := by
  obtain ⟨r, hr, hnext⟩ := Checks.map_ok.mp h
  obtain ⟨d, rfl, rfl⟩ := Option.map_eq_some_iff.mp hnext
  have hedits := callback_edits hadm hid hr
  have hframe := callback_frame hr
  have husage : doc.status = .matched → doc.recoveredUsage = none := by
    intro hmatched
    cases hu : doc.recoveredUsage with
    | none => rfl
    | some u =>
      have hcompleted := (hm.usage u hu).1
      rw [hmatched] at hcompleted
      cases hcompleted
  generalize hrecord : d.toRecord = r at hedits hframe
  subst hframe
  generalize hold : doc.toRecord = old at hedits
  cases hedits with
  | acceptPartial hmatched _ hposts _ =>
    subst hold
    obtain ⟨hone, hkind⟩ := posts_kind hposts
    refine goes_append hm hmatched rfl ⟨rfl, rfl, rfl, rfl, rfl, rfl⟩
      (fun i hi => by rw [hkind i hi]; decide) hone (fun _ i hi => by rw [hkind i hi]; decide)
      fun u hu => ?_
    rw [husage hmatched] at hu
    cases hu
  | transitionNeed hmatched hto hannounces =>
    subst hold
    obtain ⟨hone, hkind⟩ := announces_kind hannounces
    refine goes_append hm hmatched rfl ⟨rfl, rfl, rfl, rfl, rfl, rfl⟩ hkind hone
      (fun h => absurd h hto) fun u hu => ?_
    rw [husage hmatched] at hu
    cases hu
  | acknowledgeDelivery hpending =>
    subst hold
    exact goes_same hm (same_of_pending hpending) rfl

theorem compactUpdate_goes {requester : JsString} (hm : Matches P doc)
    (h : compactUpdate requester doc = .ok (some next)) : Goes P next doc := by
  unfold compactUpdate at h
  split at h
  · cases h
  obtain ⟨-, h⟩ := error_ok.mp h
  split at h
  · cases h
    exact goes_same hm (same_compact _) rfl
  · cases h

/-- A commit that writes completes a matched NEED of its own. -/
theorem commitUpdate_ok {u : UsageRecord} (h : commitUpdate P cfg s u o doc = .ok (some next)) :
    bound P s.requester s.provider s.need doc = .ok () ∧ doc.status = .matched ∧ ∃ i,
      i.kind = .RESULT ∧ i.event = resultEvent s.event ∧ next.deliveries = doc.deliveries ++ [i] ∧
      next = { doc with
        status := .completed, terminalAt := some o.now, deliveries := doc.deliveries ++ [i],
        recoveredUsage := some u } := by
  unfold commitUpdate at h
  obtain ⟨-, h⟩ := error_ok.mp h
  split at h
  · cases h
  next hbound =>
  split at h
  · obtain ⟨i, -, hi⟩ := Checks.map_ok.mp h
    cases hi
  obtain ⟨hmatched, h⟩ := error_ok.mp h
  obtain ⟨-, h⟩ := error_ok.mp h
  obtain ⟨d, hd, hnext⟩ := Checks.map_ok.mp h
  cases hnext
  unfold completed at hd
  split at hd
  · cases hd
  next doc' happ =>
  cases hd
  obtain ⟨items, hposts, rfl⟩ := appendDelivery_ok happ
  obtain ⟨e, he, rfl⟩ := posts_some hposts
  cases he
  exact ⟨hbound, not_not.mp hmatched, _, rfl, rfl, rfl, rfl⟩

theorem commitUpdate_goes {u : UsageRecord}
    (hdigest : canonicalDigest P s.event = .ok u.resultDigest) (hm : Matches P doc)
    (h : commitUpdate P cfg s u o doc = .ok (some next)) : Goes P next doc := by
  obtain ⟨-, hmatched, i, hkind, hevent, hdeliveries, rfl⟩ := commitUpdate_ok h
  refine goes_append hm hmatched hdeliveries ⟨rfl, rfl, rfl, rfl, rfl, rfl⟩
    (fun j hj => ?_) (Nat.le_refl 1) (fun h => ?_) fun v hv => ⟨rfl, i, rfl, hkind, ?_⟩
  · rw [List.mem_singleton.mp hj, hkind]
    decide
  · cases h
  · cases hv
    rw [hevent, eventDigest_resultEvent, hdigest]

end Truyn.Paid
