import Truyn.Paid.RecoveredVersions

/-! paid:recovered-once | one recovered result in every run, and what a retry is told

    Any calls on any NEEDs run at once, stop anywhere and lose any replies; a lost write may be executed
    long after. All versions of a document agree, so there is one RESULT and one usage record
    (`Agreed`). Once a commit has been written, that fact stays, and with it every later commit of the
    same arguments finds its own record: `recovered_once`. -/

namespace Truyn.Paid
open Ledger Ledger.Cosmos Programs
open Checks (error_ok bind_ok)

variable {P : Signatures} {cfg : NeedConfig}

/-- The store of NEED documents. -/
abbrev NeedStore := Store JsString NeedDocument Empty

abbrev NeedWorld :=
  World JsString NeedDocument NeedOutside Empty (Except Fault NeedReply) NeedRequest

/-- Every version matches, and follows the older ones. -/
structure Consistent (P : Signatures) (s : NeedStore) : Prop where
  documents : ∀ k, ∀ v ∈ s.docs k, Matches P v.doc
  lineage : ∀ k, (s.docs k).Pairwise fun newer older => Follows newer.doc older.doc

/-- Documents gain versions. -/
def needs (P : Signatures) : Theory JsString NeedDocument Empty where
  inv := Consistent P
  may s t := ∀ k, s.docs k <:+ t.docs k
  refl _ _ := List.suffix_rfl
  trans h h' k := (h k).trans (h' k)
  grows h := h

variable {d doc : NeedDocument} {id : JsString} {o : NeedOutside} {c : Commit}
  {effect : Except Fault (Option EffectRecord)} {r : Submission × UsageRecord}

variable {newer older : NeedDocument} {k : JsString}
  {update : NeedOutside → NeedDocument → Except Fault (Option NeedDocument)}

/-- A version is written that goes on as it should. -/
theorem consistent_write {s : NeedStore} (hs : Consistent P s) {n : ℕ} (hd : Matches P d)
    (hf : ∀ v ∈ (s.docs k).head?, Follows d v.doc) :
    Consistent P (s.write n k d) ∧ (needs P).may s (s.write n k d) := by
  have hfollows : ∀ v ∈ s.docs k, Follows d v.doc := by
    intro v hv
    have hlineage := hs.lineage k
    cases hdocs : s.docs k with
    | nil =>
      rw [hdocs] at hv
      cases hv
    | cons x older =>
      rw [hdocs] at hv hlineage hf
      have hx := hf x rfl
      rcases List.mem_cons.mp hv with rfl | hv
      · exact hx
      · exact hx.trans ((List.pairwise_cons.mp hlineage).1 v hv)
  refine ⟨⟨fun k' v hv => ?_, fun k' => ?_⟩, fun k' => ?_⟩
  · rcases mem_write hv with hv | ⟨-, rfl⟩
    · exact hs.documents k' v hv
    · exact hd
  · by_cases hk : k' = k
    · subst hk
      rw [Store.write_docs]
      exact List.pairwise_cons.mpr ⟨hfollows, hs.lineage k'⟩
    · rw [Store.write_docs_ne hk]
      exact hs.lineage k'
  · by_cases hk : k' = k
    · subst hk
      rw [Store.write_docs]
      exact List.suffix_cons _ _
    · rw [Store.write_docs_ne hk]

/-! ### The programs -/

theorem needEdit_ok (h : needEdit cfg id update o doc = .ok (some d)) :
    doc.logicalId = id ∧ ∃ next, update o doc = .ok (some next) ∧
      d = { next with version := doc.version + 1 } := by
  unfold needEdit at h
  obtain ⟨hid, h⟩ := error_ok.mp h
  split at h
  · cases h
  · cases h
  next next hnext =>
  obtain ⟨d', hpacked, hd⟩ := Checks.map_ok.mp h
  obtain ⟨-, hpacked⟩ := error_ok.mp hpacked
  cases hpacked
  cases hd
  exact ⟨not_not.mp hid, next, hnext, rfl⟩

variable {stale : Bool} {n : ℕ} {waits : Bool} {s : NeedStore}

/-- The loop keeps all versions in agreement if its callback does. -/
theorem returns_needMutate (hgoes : ∀ o doc next, doc.logicalId = id → Matches P doc →
      update o doc = .ok (some next) → Goes P next doc) :
    Returns (needs P) stale n (fun _ _ _ => True) (needMutate cfg id update) waits s := by
  unfold needMutate
  split
  · exact Returns.throw
  refine Returns.mutate (fun _ _ _ _ _ _ _ _ => trivial) ?_
    (fun _ _ _ _ _ _ _ _ _ _ _ _ => trivial) _
  intro t v older o d _ ht hdocs hedit
  obtain ⟨hid, next, hnext, rfl⟩ := needEdit_ok hedit
  have hv : v ∈ t.docs id := by
    rw [hdocs]
    exact List.mem_cons_self
  obtain ⟨hmatches, hfollows⟩ := hgoes o v.doc next hid (ht.documents id v hv) hnext
  refine consistent_write ht ⟨hmatches.one, hmatches.early, hmatches.usage⟩ fun x hx => ?_
  rw [hdocs] at hx
  cases hx
  exact ⟨hfollows.need, hfollows.settled⟩

/-- A NEED is reserved with its own event in the outbox, if any. -/
theorem matches_created {c : Ledger.Call} {now : Time} {doc : Doc}
    (h : plan cfg.ledger c now = .ok (some doc)) : Matches P ⟨doc, none⟩ := by
  have hcreates := plan_creates h
  generalize hr : doc.toRecord = r at hcreates
  cases hcreates with
  | reserveNeed hposts =>
    obtain ⟨-, hkind⟩ := posts_kind hposts
    have hnone : results ⟨doc, none⟩ = [] := by
      unfold results
      rw [hr, List.filter_eq_nil_iff]
      intro i hi
      rw [hkind i hi]
      decide
    refine ⟨by rw [hnone]; exact Nat.zero_le 1, fun _ => hnone, fun u hu => ?_⟩
    cases hu

theorem returns_ledgerCall {c : Ledger.Call} :
    Returns (needs P) stale n (fun _ _ _ => True) (ledgerCall cfg c) waits s := by
  unfold ledgerCall
  refine Returns.bind (Returns.ask fun o t _ _ => ?_)
  split
  · exact Returns.throw
  · next doc hplan =>
    refine Returns.bind (Returns.check fun _ _ u _ _ => Returns.bind (Returns.create ?_ ?_ ?_))
    · intro x _ hx hdocs
      refine consistent_write hx (matches_created hplan) fun v hv => ?_
      rw [hdocs] at hv
      cases hv
    · exact fun _ _ _ _ _ _ _ => Returns.pure fun _ _ _ => trivial
    · exact fun _ _ _ => Returns.throw
  · next hplan =>
    refine Returns.bind (Returns.mono (returns_needMutate fun o doc next hid hm h => ?_) ?_)
    · exact ledgerUpdate_goes ⟨_, hplan⟩ hid hm h
    · exact fun _ _ _ _ _ => Returns.pure fun _ _ _ => trivial

theorem returns_compactNeed {requester : JsString} :
    Returns (needs P) stale n (fun _ _ _ => True) (compactNeed cfg id requester) waits s := by
  unfold compactNeed
  split
  · exact Returns.throw
  refine Returns.bind (Returns.mono (returns_needMutate fun o doc next _ hm h => ?_) ?_)
  · exact compactUpdate_goes hm h
  · exact fun _ _ _ _ _ => Returns.pure fun _ _ _ => trivial

/-- What a commit is about to store has the digest of its RESULT. -/
theorem prepared_ok (h : prepared P c effect = .ok r) :
    canonicalDigest P r.1.event = .ok r.2.resultDigest := by
  unfold prepared at h
  obtain ⟨s, -, h⟩ := bind_ok.mp h
  obtain ⟨row, -, h⟩ := bind_ok.mp h
  obtain ⟨u, hu, h⟩ := bind_ok.mp h
  cases h
  exact recovery_digest hu

theorem returns_commitRecoveredResult :
    Returns (needs P) stale n (fun _ _ _ => True) (commitRecoveredResult P cfg c effect) waits s := by
  unfold commitRecoveredResult
  refine Returns.bind (Returns.check fun r hr t _ _ => ?_)
  refine Returns.bind (Returns.mono (returns_needMutate fun o doc next _ hm h => ?_) ?_)
  · exact commitUpdate_goes (prepared_ok hr) hm h
  · exact fun _ _ _ _ _ => Returns.check fun _ _ _ _ _ => trivial

theorem returns_getNeed :
    Returns (needs P) stale n (fun _ _ _ => True) (getNeed id) waits s := by
  unfold getNeed
  split
  · exact Returns.throw
  refine Returns.bind (Returns.get (fun _ _ _ => Returns.throw) fun t v older _ _ _ => ?_)
  dsimp only
  split
  · exact Returns.throw
  · exact Returns.pure fun _ _ _ => trivial

theorem returns_finalize {F : Finalizer} {need : Json} {x : FinalAnswers} :
    Returns (needs P) stale n (fun _ _ _ => True) (finalize P cfg F need x) waits s := by
  unfold finalize
  split
  · exact Returns.throw
  split
  · refine Returns.bind (Returns.check fun _ _ t _ _ => ?_)
    refine Returns.bind (Returns.mono returns_getNeed fun b row u _ _ => ?_)
    refine Returns.bind (Returns.check fun c _ v _ _ => ?_)
    exact Returns.bind (Returns.check fun _ _ _ _ _ => returns_commitRecoveredResult)
  · exact Returns.throw

/-- Nothing is promised here of what calls come to. -/
theorem verified_needs : Verified (needs P) stale (needProgram P cfg) fun _ _ _ _ _ => True := by
  intro n c s _ _
  have hany : ∀ {p : NeedAct NeedReply},
      Returns (needs P) stale n (fun _ _ _ => True) p true s →
      Safe (needs P) stale n (fun _ _ _ => True) p true s := fun h =>
    Safe.mono h fun _ _ _ _ _ => trivial
  cases c with
  | ledger c =>
    exact hany (Returns.bind (Returns.mono returns_ledgerCall fun _ _ _ _ _ =>
      Returns.pure fun _ _ _ => trivial))
  | compactNeed id requester =>
    exact hany (Returns.bind (Returns.mono returns_compactNeed fun _ _ _ _ _ =>
      Returns.pure fun _ _ _ => trivial))
  | finalize F need x =>
    exact hany (Returns.bind (Returns.mono returns_finalize fun _ _ _ _ _ =>
      Returns.pure fun _ _ _ => trivial))
  | commitRecoveredResult c effect =>
    exact hany (Returns.bind (Returns.mono returns_commitRecoveredResult fun _ _ _ _ _ =>
      Returns.pure fun _ _ _ => trivial))

/-! ### What a commit leaves behind -/

/-- The document has the record of the submission. -/
structure Committed (P : Signatures) (s : Submission) (u : UsageRecord) (doc : NeedDocument) :
    Prop where
  id : doc.logicalId = s.id
  valid : validNeedId s.id = true
  bound : bound P s.requester s.provider s.need doc = .ok ()
  usage : doc.recoveredUsage = some u

theorem Committed.follows {s : Submission} {u : UsageRecord} (h : Committed P s u older)
    (hm : Matches P older) (hf : Follows newer older) :
    Committed P s u newer := by
  have hid : newer.logicalId = older.logicalId := congrArg Prod.fst hf.need
  exact ⟨hid.trans h.id, h.valid, (bound_eq hf.need _ _ _).trans h.bound, hf.usage hm h.usage⟩

/-- A commit that finds its record leaves it as it is. -/
theorem commitUpdate_committed {s : Submission} {u : UsageRecord} (hm : Matches P doc)
    (h : Committed P s u doc) (o : NeedOutside) :
    needEdit cfg s.id (commitUpdate P cfg s u) o doc =
      if o.aborted then .error recoveredAborted else .ok none := by
  obtain ⟨hcompleted, i, hi, hdigest⟩ := hm.usage u h.usage
  have hrecords : records P u doc recoveredConflict = .ok i := records_ok.mpr ⟨h.usage, hi, hdigest⟩
  have husage : doc.status = .completed ∧ doc.recoveredUsage.isSome = true :=
    ⟨hcompleted, by rw [h.usage]; rfl⟩
  unfold needEdit commitUpdate
  rw [if_neg (not_not.mpr h.id), h.bound]
  dsimp only
  rw [if_pos husage, hrecords]
  split
  · next hab =>
    split at hab <;> cases hab
    next ha => rw [if_pos ha]
  · next hab =>
    split at hab
    · cases hab
    next ha => rw [if_neg ha]
  · next hab => split at hab <;> cases hab

/-- What a commit writes is committed. -/
theorem committed_edit {s : Submission} {u : UsageRecord} (hvalid : validNeedId s.id = true)
    (h : needEdit cfg s.id (commitUpdate P cfg s u) o doc = .ok (some d)) : Committed P s u d := by
  obtain ⟨hid, next, hnext, rfl⟩ := needEdit_ok h
  obtain ⟨hbound, -, i, hkind, -, -, rfl⟩ := commitUpdate_ok hnext
  refine ⟨hid, hvalid, ?_, rfl⟩
  rw [← hbound]
  refine bound_eq ?_ _ _ _
  have horiginal : originalNeed
      { doc with status := .completed, terminalAt := some o.now,
                 deliveries := doc.deliveries ++ [i], recoveredUsage := some u,
                 version := doc.version + 1 } = originalNeed doc := by
    refine originalNeed_eq (congrArg _ (original_append fun j hj => ?_))
    rw [List.mem_singleton.mp hj, hkind]
    decide
  unfold needOf
  rw [horiginal]

/-- What a call may write. -/
def Writing (P : Signatures) : NeedRequest → JsString → NeedDocument → Prop
  | .commitRecoveredResult c effect, k, d =>
    ∃ r, prepared P c effect = .ok r ∧ k = r.1.id ∧ Committed P r.1 r.2 d
  | _, _, _ => True

theorem only_commit :
    Act.Only (Writing P (.commitRecoveredResult c effect)) (commitRecoveredResult P cfg c effect) := by
  unfold commitRecoveredResult
  cases hr : prepared P c effect with
  | error f => trivial
  | ok r =>
    show Act.Only _ (needMutate cfg r.1.id (commitUpdate P cfg r.1 r.2) >>= fun result =>
      Act.check (recordedBy P r.2 result))
    refine Act.only_bind ?_ fun _ => trivial
    unfold needMutate
    split
    · trivial
    next hvalid =>
    refine Act.only_mutate (fun o doc d hd => ⟨r, hr, rfl, committed_edit ?_ hd⟩) _
    simpa using hvalid

theorem only_needProgram (c : NeedRequest) : (needProgram P cfg c).Only (Writing P c) := by
  cases c with
  | ledger c => exact Prog.only_true _
  | compactNeed id requester => exact Prog.only_true _
  | finalize F need x => exact Prog.only_true _
  | commitRecoveredResult c effect => exact Act.only_bind only_commit fun _ => trivial

/-! ### Retries -/

/-- The store has the record of the submission. -/
def Has (P : Signatures) (s : Submission) (u : UsageRecord) (t : NeedStore) : Prop :=
  ∃ v ∈ t.docs s.id, Committed P s u v.doc

theorem Has.grows {s : Submission} {u : UsageRecord} (t t' : NeedStore) (hmay : (needs P).may t t')
    (h : Has P s u t) : Has P s u t' := by
  obtain ⟨v, hv, hc⟩ := h
  exact ⟨v, (hmay s.id).subset hv, hc⟩

/-- It is in the newest version. -/
theorem Has.head {s : Submission} {u : UsageRecord} {t : NeedStore} (ht : Consistent P t)
    (h : Has P s u t) : ∃ x older, t.docs s.id = x :: older ∧ Committed P s u x.doc := by
  obtain ⟨v, hv, hc⟩ := h
  have hlineage := ht.lineage s.id
  have hm := ht.documents s.id v hv
  cases hdocs : t.docs s.id with
  | nil =>
    rw [hdocs] at hv
    cases hv
  | cons x older =>
    rw [hdocs] at hv hlineage
    refine ⟨x, older, rfl, ?_⟩
    rcases List.mem_cons.mp hv with rfl | hv
    · exact hc
    · exact hc.follows hm ((List.pairwise_cons.mp hlineage).1 v hv)

/-- What a retry is told: its own record; or nothing, because a request was not answered in time or
    the caller has aborted. -/
def Told (u : UsageRecord) (r : Except Fault NeedReply) : Prop :=
  (∃ a, r = .ok (.recorded a) ∧ a.recorded = true ∧ a.idempotent = true ∧ a.usageRecord = u) ∨
    r = .error unavailable ∨ r = .error recoveredAborted

theorem recordedBy_committed {s : Submission} {u : UsageRecord} (hm : Matches P doc)
    (h : Committed P s u doc) :
    ∃ a, recordedBy P u (false, doc) = .ok a ∧ a.recorded = true ∧ a.idempotent = true ∧
      a.usageRecord = u := by
  obtain ⟨hcompleted, i, hi, hdigest⟩ := hm.usage u h.usage
  have hrecords : records P u doc commitUnverified = .ok i := records_ok.mpr ⟨h.usage, hi, hdigest⟩
  refine ⟨⟨true, true, u, i.acknowledgedAt.isNone, false, false, false⟩, ?_, rfl, rfl, rfl⟩
  unfold recordedBy
  rw [if_neg (not_not.mpr hcompleted), hrecords]
  rfl

/-- What a commit still has to do once its arguments and its receipt are verified. -/
theorem commit_prepared (hr : prepared P c effect = .ok r) (hvalid : validNeedId r.1.id = true) :
    commitRecoveredResult P cfg c effect =
      (Act.mutate needFaults r.1.id (needEdit cfg r.1.id (commitUpdate P cfg r.1 r.2))
        cfg.maxCasAttempts >>= fun result => Act.check (recordedBy P r.2 result)) := by
  unfold commitRecoveredResult needMutate
  rw [hr]
  show (if _ then _ else _ : NeedAct _) >>= _ = _
  rw [if_neg (by simp [hvalid])]

/-- A commit whose record is stored finds it, with its first read. -/
theorem retry_safe (hr : prepared P c effect = .ok r) (hvalid : validNeedId r.1.id = true) :
    Ensures ((needs P).given (Has P r.1 r.2)) false n (fun _ b _ => Told r.2 b)
      (needProgram P cfg (.commitRecoveredResult c effect)) waits s := by
  obtain ⟨left, hleft⟩ := Nat.exists_eq_add_of_le' cfg.attempts
  show Ensures ((needs P).given (Has P r.1 r.2)) false n (fun _ b _ => Told r.2 b)
    (commitRecoveredResult P cfg c effect >>= fun a => pure (NeedReply.recorded a)) waits s
  rw [commit_prepared hr hvalid, hleft]
  refine Act.safe_bind (Act.safe_bind (Act.safe_mutate_seen ?_ ?_ ?_ left))
  · exact fun t _ => Act.safe_throw fun u _ _ =>
      Act.safe_throw fun _ _ _ => .inr (.inl rfl)
  · rintro t ⟨ht, hhas⟩
    obtain ⟨x, older, hdocs, -⟩ := hhas.head ht
    rw [hdocs]
    exact List.cons_ne_nil _ _
  · rintro t v older o u ⟨ht, hhas⟩ hdocs -
    obtain ⟨x, older', hdocs', hc⟩ := hhas.head ht
    obtain ⟨rfl, -⟩ := List.cons.inj (hdocs.symm.trans hdocs')
    have hm := ht.documents r.1.id v (hdocs ▸ List.mem_cons_self)
    rw [commitUpdate_committed hm hc]
    by_cases ha : o.aborted = true
    · rw [if_pos ha]
      exact .inl ⟨_, rfl, Act.safe_throw fun _ _ _ => Act.safe_throw fun _ _ _ => .inr (.inr rfl)⟩
    · rw [if_neg ha]
      obtain ⟨a, hrec, htold⟩ := recordedBy_committed hm hc
      refine .inr ⟨rfl, Act.safe_check fun _ _ _ => ?_⟩
      rw [hrec]
      exact Act.safe_pure fun _ _ _ => .inl ⟨a, rfl, htold⟩

/-- Every call made from number `later` on that is such a commit is told so. -/
theorem verified_retry (hr : prepared P c effect = .ok r) (hvalid : validNeedId r.1.id = true)
    (later : ℕ) :
    Verified ((needs P).given (Has P r.1 r.2)) false (needProgram P cfg) fun n request _ b _ =>
      later ≤ n → request = .commitRecoveredResult c effect → Told r.2 b := by
  intro n request s hs hfresh
  by_cases heq : request = .commitRecoveredResult c effect
  · subst heq
    exact Safe.mono (retry_safe hr hvalid) fun _ _ _ _ htold _ _ => htold
  · refine Safe.mono ((verified_needs n request s hs.1 hfresh).given Has.grows) ?_
    exact fun _ _ _ _ _ _ h => absurd h heq

/-- A retry that is let go on comes to its end. -/
theorem retry_alone (hr : prepared P c effect = .ok r) {w : NeedWorld} (ht : Consistent P w.store)
    (hhas : Has P r.1 r.2 w.store) (ho : o.aborted = false) :
    ∃ a, (w.calls.length, .ok (.recorded a)) ∈ (w.play (needProgram P cfg)
        (.call (.commitRecoveredResult c effect) :: List.replicate 3 (.go w.calls.length o))).answers ∧
      a.recorded = true ∧ a.idempotent = true ∧ a.usageRecord = r.2 := by
  obtain ⟨left, hleft⟩ := Nat.exists_eq_add_of_le' cfg.attempts
  obtain ⟨x, older, hdocs, hc⟩ := hhas.head ht
  have hm := ht.documents r.1.id x (hdocs ▸ List.mem_cons_self)
  obtain ⟨a, hrec, htold⟩ := recordedBy_committed hm hc
  have hseen : needEdit cfg r.1.id (commitUpdate P cfg r.1 r.2) o x.doc = .ok none := by
    rw [commitUpdate_committed hm hc, if_neg (by simp [ho])]
  have hprog : needProgram P cfg (.commitRecoveredResult c effect) =
      (Act.mutate needFaults r.1.id (needEdit cfg r.1.id (commitUpdate P cfg r.1 r.2)) (left + 1) >>=
        fun result => Act.check (recordedBy P r.2 result) >>= fun a =>
          pure (NeedReply.recorded a)) := by
    rw [← Act.bind_assoc, ← hleft, ← commit_prepared hr hc.valid]
    rfl
  refine ⟨a, play_seen hprog hdocs hseen ?_, htold⟩
  rw [hrec]
  rfl

/-! ### Every run -/

/-- No NEEDs yet. -/
def noNeeds : NeedStore := ⟨fun _ => [], []⟩

theorem consistent_noNeeds : Consistent P noNeeds where
  documents _ _ hv := by cases hv
  lineage _ := List.Pairwise.nil

theorem old_noNeeds : Old noNeeds := ⟨rfl, fun _ _ h => by cases h⟩

/-- Two versions have no two usage records and no two RESULTs, however far these are acknowledged;
    where one was settled without a usage record, the other has none. -/
structure Agree (a b : NeedDocument) : Prop where
  usage : ∀ u u', a.recoveredUsage = some u → b.recoveredUsage = some u' → u = u'
  result : ∀ i ∈ results a, ∀ j ∈ results b, i.pending = j.pending
  ordinary : a.status ≠ .matched → a.recoveredUsage = none → b.recoveredUsage = none

theorem results_eq (hm : Matches P doc) {i : OutboxItem} (hi : i ∈ results doc) :
    doc.status ≠ .matched ∧ results doc = [i] := by
  constructor
  · intro h
    rw [hm.early h] at hi
    cases hi
  · have hone := hm.one
    match hl : results doc with
    | [] =>
      rw [hl] at hi
      cases hi
    | [j] =>
      rw [hl] at hi
      rw [List.mem_singleton.mp hi]
    | _ :: _ :: _ =>
      rw [hl] at hone
      simp at hone

theorem agree_of_follows (h : Follows newer older) (hm : Matches P newer) (hm' : Matches P older) :
    Agree newer older ∧ Agree older newer := by
  have husage : ∀ u u', newer.recoveredUsage = some u → older.recoveredUsage = some u' → u = u' :=
    fun u u' hu hu' => Option.some.inj (hu.symm.trans (h.usage hm' hu'))
  have hresult : ∀ i ∈ results newer, ∀ j ∈ results older, i.pending = j.pending := by
    intro i hi j hj
    obtain ⟨-, hi⟩ := results_eq hm hi
    obtain ⟨hsettled, hj⟩ := results_eq hm' hj
    have hsame := (h.settled hsettled).2.2
    rw [hi, hj] at hsame
    exact (List.cons.inj hsame).1
  refine ⟨⟨husage, hresult, fun _ hnone => ?_⟩,
    ⟨fun u u' hu hu' => (husage u' u hu' hu).symm, fun i hi j hj => (hresult j hj i hi).symm,
      fun hsettled hnone => (h.settled hsettled).2.1.trans hnone⟩⟩
  cases hu : older.recoveredUsage with
  | none => rfl
  | some u =>
    rw [h.usage hm' hu] at hnone
    cases hnone

/-- All versions agree. -/
theorem Consistent.agree {s : NeedStore} (hs : Consistent P s) {u v : Version NeedDocument}
    (hu : u ∈ s.docs k) (hv : v ∈ s.docs k) : Agree u.doc v.doc := by
  have hmu := hs.documents k u hu
  have hmv := hs.documents k v hv
  rcases agree_of_lineage (hs.lineage k) hu hv with rfl | h | h
  · refine ⟨fun x y hx hy => Option.some.inj (hx.symm.trans hy), fun i hi j hj => ?_, fun _ h => h⟩
    have heq := (results_eq hmu hi).2.symm.trans (results_eq hmu hj).2
    rw [(List.cons.inj heq).1]
  · exact (agree_of_follows h hmu hmv).1
  · exact (agree_of_follows h hmv hmu).2

/-- RECOVERED ONCE: in every run, a document has at most one RESULT, and its usage record has the
    RESULT's digest; no two versions of it have two RESULTs or two usage records, and a NEED that was
    settled without a usage record never gets one. A commit whose arguments are those of one that has
    been written finds the record (`Told`), and if it is let go on it says so. -/
theorem recovered_once {stale : Bool} {w : NeedWorld}
    (h : Run (needProgram P cfg) stale (World.start noNeeds) w) :
    (∀ k, ∀ v ∈ w.store.docs k, Matches P v.doc) ∧
    (∀ k, ∀ u ∈ w.store.docs k, ∀ v ∈ w.store.docs k, Agree u.doc v.doc) ∧
    ∀ n c effect k, w.calls[n]? = some (.commitRecoveredResult c effect) →
      w.store.written n k ≠ [] → ∃ r, prepared P c effect = .ok r ∧
      (stale = false → ∀ w', Run (needProgram P cfg) stale w w' → ∀ m b, w.calls.length ≤ m →
        w'.calls[m]? = some (.commitRecoveredResult c effect) → (m, b) ∈ w'.answers → Told r.2 b) ∧
      ∀ o : NeedOutside, o.aborted = false → ∃ a, a.recorded = true ∧ a.idempotent = true ∧
        a.usageRecord = r.2 ∧ (w.calls.length, .ok (.recorded a)) ∈
          (w.play (needProgram P cfg) (.call (.commitRecoveredResult c effect) ::
            List.replicate 3 (.go w.calls.length o))).answers := by
  have hsound := sound_of_run verified_needs consistent_noNeeds old_noNeeds h
  have hanswered := answered_of_run verified_needs consistent_noNeeds old_noNeeds
    (fun _ _ _ _ _ _ _ _ _ => trivial) h
  have hsigned := signed_of_run only_needProgram old_noNeeds h
  have hinv := hsound.inv
  refine ⟨hinv.documents, fun k u hu v hv => hinv.agree hu hv, fun n c effect k hc hwritten => ?_⟩
  obtain ⟨v, hv⟩ := List.exists_mem_of_ne_nil _ hwritten
  obtain ⟨hv, hwriter⟩ := List.mem_filter.mp hv
  obtain ⟨c', hc', hwriting⟩ := hsigned.docs k v hv n (of_decide_eq_true hwriter)
  cases hc.symm.trans hc'
  obtain ⟨r, hr, rfl, hcommitted⟩ := hwriting
  have hhas : Has P r.1 r.2 w.store := ⟨v, hv, hcommitted⟩
  refine ⟨r, hr, ?_, fun o ho => ?_⟩
  · rintro rfl w' hrun m b hm hcm hb
    obtain ⟨-, c', hc', htold⟩ :=
      hsound.given Has.grows hhas hanswered (verified_retry hr hcommitted.valid w.calls.length)
        (fun _ _ _ _ _ _ _ _ htold => htold) hrun (fun _ _ _ _ _ hlt hle => absurd hlt (by omega))
        m b hb
    cases hcm.symm.trans hc'
    exact htold hm rfl
  · obtain ⟨a, ha, hrecorded, hidempotent, husage⟩ := retry_alone hr hinv hhas ho
    exact ⟨a, hrecorded, hidempotent, husage, ha⟩

/-! ### A lost reply -/

def sampleNeed : Json :=
  .object [(js "type", .string (js "NEED")), (js "id", .string (js "need-1")),
    (js "from", .string (js "node-2")), (js "payload", .object [(js "input", .string (js "q"))])]

def sampleReceipt : Receipt :=
  ⟨js "resp_1", js "gpt", js "91e625bd191d0a29ccde01c4759fb7b404601ce49b475a6df8796ab675494cfc",
    js "ee9555184346cf42bc9ef6619d764c88f4c193f8fabbbffc0cceacfa44a9dd35", ⟨3, 4, 7⟩⟩

/-- SHA-256, of the texts that are hashed here; the last one is the RESULT. -/
def sampleDigests (s : JsString) : JsString :=
  if s = js "need-1" then js "d3d89dcfc65961f52e172206ec8db49098d0fc975c00b939761ca8e452813d11"
  else if s = js "an answer" then
    js "ee9555184346cf42bc9ef6619d764c88f4c193f8fabbbffc0cceacfa44a9dd35"
  else if s = js "[\"need-1\",\"node-2\",\x7b\"input\":\"q\"\x7d]" then
    js "c14013f98653e78263a5f8e1afdf9717122998fc8d5f51cd729df928ccf9c329"
  else if s = sampleNeed.text then
    js "de6137887d6dd62817b1e75573c02c47eb6cedfae3503b086c2c6e07c0f867d0"
  else if s = sampleReceipt.value.normalize.text then
    js "e28657fab6bf3545b7a7c62af41419e44404543cc1ae4fbc9972457fdd6abf3e"
  else js "de870a8ae067f1e474ecd4c2a65c28c0abb41ca88369c095c6739dfaedfaff22"

def sampleSignatures : Signatures := ⟨sampleDigests, fun _ _ => true⟩

def sampleConfig : NeedConfig := ⟨850000, 256, 5, by decide, fun _ => 4000⟩

/-- Reserved with its NEED event in the outbox. -/
def sampleReservation : Reservation where
  id := js "need-1"
  requester := js "node-2"
  provider := js "node-1"
  fingerprint := sampleDigests sampleNeed.text
  capability := js "qa"
  mode := js "legacy"
  scope := js "node-2"
  policyDigest := js "policy"
  paidAuthorization := none
  delivery := some ⟨js "node-1", .NEED, some ⟨.NEED, none, none,
    (Json.object [(js "kind", .string (js "NEED")), (js "envelope", sampleNeed)]).text⟩⟩

def sampleEffect : EffectRecord where
  requester := js "node-2"
  provider := js "node-1"
  fingerprint := js "c14013f98653e78263a5f8e1afdf9717122998fc8d5f51cd729df928ccf9c329"
  status := .started
  createdAt := 0
  terminalAt := none
  observedTokens := none
  logicalId := js "need-1"
  version := 3
  receiptExecution := none
  effectReceipt := some sampleReceipt
  receiptCapturedAt := some 0

/-- The RESULT that the finalizer of `node-1` signs. -/
def sampleResult : Json :=
  (finalResult sampleSignatures ⟨js "node-1", js "pem", fun _ => js "c2ln"⟩ (js "need-1")
    (js "node-2") (js "an answer") sampleReceipt 0
    (js "e28657fab6bf3545b7a7c62af41419e44404543cc1ae4fbc9972457fdd6abf3e")).toOption.getD .null

def sampleRequest : NeedRequest :=
  .commitRecoveredResult ⟨sampleNeed, js "node-1",
    finalDelivery (js "node-2")
      (.object [(js "kind", .string (js "RESULT")), (js "envelope", sampleResult)]),
    js "e28657fab6bf3545b7a7c62af41419e44404543cc1ae4fbc9972457fdd6abf3e"⟩ (.ok (some sampleEffect))

def going : NeedOutside := ⟨0, false, .ok ()⟩

/-- The NEED is reserved. The reply to the commit's write is lost, and the write is executed later. -/
def lostReply : List (Move NeedOutside NeedRequest) :=
  [.call (.ledger (.reserveNeed sampleReservation)), .go 0 going, .go 0 going, .go 0 going,
    .call sampleRequest, .go 1 going, .go 1 going, .lose 1, .go 1 going, .late 0]

def afterLost : NeedWorld :=
  (World.start noNeeds).play (needProgram sampleSignatures sampleConfig) lostReply

theorem run_afterLost :
    Run (needProgram sampleSignatures sampleConfig) false (World.start noNeeds) afterLost :=
  run_play (needProgram sampleSignatures sampleConfig) false lostReply (World.start noNeeds)

theorem calls_afterLost :
    afterLost.calls = [.ledger (.reserveNeed sampleReservation), sampleRequest] :=
  calls_play (needProgram sampleSignatures sampleConfig) lostReply (World.start noNeeds)

theorem written_afterLost : (afterLost.store.written 1 (js "need-1")).length = 1 := by
  have hdigests : sampleDigests = _ := funext sampleDigests.eq_1
  rw [afterLost, lostReply, sampleRequest, sampleReservation, sampleResult, sampleSignatures,
    sampleEffect, hdigests, sampleReceipt, sampleNeed]
  repeat rw [js_ofList]
  decide +kernel

/-- The caller of the commit was told nothing; its retry finds the record. -/
theorem lost_reply : (afterLost.store.written 1 (js "need-1")).length = 1 ∧
    ∃ a, a.idempotent = true ∧ (2, .ok (.recorded a)) ∈
      (afterLost.play (needProgram sampleSignatures sampleConfig)
        (.call sampleRequest :: List.replicate 3 (.go 2 going))).answers := by
  have hcall : afterLost.calls[1]? = some sampleRequest := by
    rw [calls_afterLost]
    rfl
  have hwritten : afterLost.store.written 1 (js "need-1") ≠ [] :=
    List.ne_nil_of_length_pos (by rw [written_afterLost]; exact Nat.one_pos)
  obtain ⟨-, -, hretry⟩ := recovered_once run_afterLost
  obtain ⟨r, -, -, halone⟩ := hretry 1 _ _ (js "need-1") hcall hwritten
  obtain ⟨a, -, hidempotent, -, ha⟩ := halone going rfl
  rw [calls_afterLost] at ha
  exact ⟨written_afterLost, a, hidempotent, ha⟩

end Truyn.Paid
