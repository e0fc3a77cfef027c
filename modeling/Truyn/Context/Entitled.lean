import Truyn.Context.Access

/-! context:entitled | a reader has submitted the document, or was named by an owner of it

    `Reader` follows the names through the log: a submission names readers, and a delta takes over
    those of its base. Records only gain owners and readers, so what a handler checked before its
    body came holds when it goes on. -/

namespace Truyn.Context
open Checks

/-- A submission names the node as a reader. -/
def Submission.names (d : Submission) (n : NodeId) : Prop :=
  ∃ l, contextReaders d.named = .ok l ∧ n ∈ l

/-- Whoever is named as a reader by one who submits the document, or is by then a reader of the one
    that it is a delta of. -/
inductive Reader : List Submission → NodeId → Document → Prop
  | named {past : List Submission} {d : Submission} {n : NodeId} (h : d.names n) :
    Reader (past ++ [d]) n d.document
  | inherited {past : List Submission} {d : Submission} {base : Document} {n : NodeId}
    (hbase : d.base = some base) (h : Reader past n base) : Reader (past ++ [d]) n d.document
  | later {past : List Submission} {d : Submission} {n : NodeId} {doc : Document}
    (h : Reader past n doc) : Reader (past ++ [d]) n doc

/-- Whoever submitted a document, by its blocks or by a delta. -/
def Owner (log : List Submission) (n : NodeId) (doc : Document) : Prop :=
  ∃ d ∈ log, d.owner = n ∧ d.document = doc

theorem Owner.later {past : List Submission} {n : NodeId} {doc : Document} (h : Owner past n doc)
    (d : Submission) : Owner (past ++ [d]) n doc := by
  obtain ⟨e, he, heq⟩ := h
  exact ⟨e, List.mem_append_left _ he, heq⟩

namespace Relay

variable {H : Host} {s t : Relay} {n : NodeId} {cid : Cid} {S : Set JsString}

def Reads (s : Relay) (cid : Cid) (n : NodeId) : Prop :=
  ∃ r, Maps.get s.contexts cid = some r ∧ canReadContext r n = true

def Owns (s : Relay) (cid : Cid) (n : NodeId) : Prop :=
  ∃ r, Maps.get s.contexts cid = some r ∧ n ∈ r.owners

/-! ### Records only gain owners and readers -/

/-- Every record is still there, with whom it had. -/
def Grows (s t : Relay) : Prop :=
  ∀ cid r, Maps.get s.contexts cid = some r → ∃ r', Maps.get t.contexts cid = some r' ∧
    r'.document = r.document ∧ r.owners ⊆ r'.owners ∧ r.readers ⊆ r'.readers

theorem Grows.of_eq (h : t.contexts = s.contexts) : Grows s t := fun _ r hr =>
  ⟨r, h ▸ hr, rfl, List.Subset.refl _, List.Subset.refl _⟩

theorem Grows.trans {u : Relay} (h : Grows s t) (h' : Grows t u) : Grows s u := by
  intro cid r hr
  obtain ⟨r', hr', hd, ho, hread⟩ := h cid r hr
  obtain ⟨q, hq, hd', ho', hread'⟩ := h' cid r' hr'
  exact ⟨q, hq, hd'.trans hd, List.Subset.trans ho ho', List.Subset.trans hread hread'⟩

theorem Grows.owns (h : Grows s t) (hs : s.Owns cid n) : t.Owns cid n := by
  obtain ⟨r, hr, hn⟩ := hs
  obtain ⟨r', hr', -, howners, -⟩ := h cid r hr
  exact ⟨r', hr', howners hn⟩

theorem Grows.reads (h : Grows s t) (hs : s.Reads cid n) : t.Reads cid n := by
  obtain ⟨r, hr, hn⟩ := hs
  obtain ⟨r', hr', -, howners, hreaders⟩ := h cid r hr
  refine ⟨r', hr', ?_⟩
  simp only [canReadContext, decide_eq_true_eq] at hn ⊢
  exact hn.imp (fun ho => howners ho) fun hr => hreaders hr

theorem Owns.reads (h : s.Owns cid n) : s.Reads cid n := by
  obtain ⟨r, hr, hn⟩ := h
  exact ⟨r, hr, by simp [canReadContext, hn]⟩

variable {l : List NodeId} {r : Record} {k : Task} {d : Submission} {b : Body}

theorem mem_addTo {m : NodeId} : n ∈ addTo l m ↔ n ∈ l ∨ n = m := by
  unfold addTo
  split
  · next hm =>
    refine ⟨.inl, fun h => h.elim id ?_⟩
    rintro rfl
    exact hm
  · simp

theorem mem_foldl_addTo {m : List NodeId} : n ∈ m.foldl addTo l ↔ n ∈ l ∨ n ∈ m := by
  induction m generalizing l with
  | nil => simp
  | cons a m ih => rw [List.foldl_cons, ih, mem_addTo, List.mem_cons, or_assoc]

/-- A record that a submission makes of the one that is there, or of none: it has one owner more,
    and none but the readers that are given. -/
def Makes (s : Relay) (d : Submission) (readers : RawReaders) (r : Record) : Prop :=
  d.owner ∈ r.owners ∧
  ((Maps.get s.contexts d.document.cid = none ∧ r.document = d.document ∧
      (∀ n ∈ r.owners, n = d.owner) ∧
      ∀ n ∈ r.readers, ∃ l, contextReaders readers = .ok l ∧ n ∈ l) ∨
    ∃ existing, Maps.get s.contexts d.document.cid = some existing ∧
      r.document = existing.document ∧ existing.owners ⊆ r.owners ∧
      existing.readers ⊆ r.readers ∧ (∀ n ∈ r.owners, n ∈ existing.owners ∨ n = d.owner) ∧
      ∀ n ∈ r.readers, n ∈ existing.readers ∨ ∃ l, contextReaders readers = .ok l ∧ n ∈ l)

/-- A submission is refused, or logged and saved. -/
theorem saveContext_cases (d : Submission) (readers : RawReaders) :
    (∃ f, s.saveContext H d readers = (s, .error f)) ∨
    ∃ r answer, s.saveContext H d readers = ((s.log d).put d.document.cid r, answer) ∧
      (∀ record, answer = .ok record → record = r) ∧ Makes s d readers r := by
  have howned : ∀ l : List NodeId, l ⊆ addTo l d.owner := fun l n hn => mem_addTo.mpr (.inl hn)
  unfold saveContext
  dsimp only
  split
  · next existing hget =>
    split
    · exact .inr ⟨_, _, rfl, by simp, mem_addTo.mpr (.inr rfl), .inr ⟨existing, hget, rfl,
        howned _, List.Subset.refl _, fun n => mem_addTo.mp, fun n hn => .inl hn⟩⟩
    · next named hnamed =>
      refine .inr ⟨_, _, rfl, by simp, mem_addTo.mpr (.inr rfl), .inr ⟨existing, hget, rfl,
        howned _, fun n hn => mem_foldl_addTo.mpr (.inl hn), fun n => mem_addTo.mp, fun n hn => ?_⟩⟩
      exact (mem_foldl_addTo.mp hn).imp id fun h => ⟨named, hnamed, h⟩
  · next hget =>
    split
    · exact .inl ⟨_, rfl⟩
    split
    · exact .inl ⟨_, rfl⟩
    · next named hnamed =>
      exact .inr ⟨_, _, rfl, by simp, List.mem_singleton_self _, .inl ⟨hget, rfl,
        fun n => List.mem_singleton.mp, fun n hn => ⟨named, hnamed, hn⟩⟩⟩

theorem get_put {c : Cid} : Maps.get (s.put cid r).contexts c =
    if cid = c then some r else Maps.get s.contexts c := Maps.get_set

theorem get_put_self : Maps.get (s.put cid r).contexts cid = some r := by
  rw [get_put, if_pos rfl]

/-- A record is put under its CID, where there was none or one that it grew from. -/
theorem Grows.put (h : ∀ r', Maps.get s.contexts cid = some r' →
    r.document = r'.document ∧ r'.owners ⊆ r.owners ∧ r'.readers ⊆ r.readers) :
    Grows s (s.put cid r) := by
  intro c r' hr'
  by_cases hc : cid = c
  · subst hc
    exact ⟨r, get_put_self, h r' hr'⟩
  · exact ⟨r', by rw [get_put, if_neg hc, hr'], rfl, List.Subset.refl _, List.Subset.refl _⟩

/-! ### The invariant -/

/-- What a handler that awaits its body has checked. -/
def Allowed (s : Relay) : Task → Prop
  | .select n cid | .retrieve n cid => s.Reads cid n
  | .delta n cid => s.Owns cid n
  | .publish _ | .done => True

theorem Grows.allowed (h : Grows s t) (hs : s.Allowed k) : t.Allowed k := by
  cases k with
  | select n cid => exact h.reads hs
  | retrieve n cid => exact h.reads hs
  | delta n cid => exact h.owns hs
  | publish | done => trivial

/-- Records hold what was submitted, their owners submitted it, and their readers were named. -/
structure Sound (H : Host) (s : Relay) : Prop where
  built : ∀ d ∈ s.submissions, Built H.toPlatform d.document
  based : ∀ past d rest, s.submissions = past ++ d :: rest → ∀ base, d.base = some base →
    Owner past d.owner base
  kept : ∀ c r, Maps.get s.contexts c = some r →
    r.document.cid = c ∧ ∃ d ∈ s.submissions, d.document = r.document
  owners : ∀ c r, Maps.get s.contexts c = some r → ∀ n ∈ r.owners, Owner s.submissions n r.document
  readers : ∀ c r, Maps.get s.contexts c = some r → ∀ n ∈ r.readers,
    Reader s.submissions n r.document
  allowed : ∀ k ∈ s.tasks, s.Allowed k
  answers : ∀ p ∈ s.answers, ∀ cid, p.2.tells = some cid → s.Reads cid p.1

theorem Sound.start : Sound H .start where
  built := by simp [Relay.start]
  based := by simp [Relay.start]
  kept := by simp [Relay.start]
  owners := by simp [Relay.start]
  readers := by simp [Relay.start]
  allowed := by simp [Relay.start]
  answers := by simp [Relay.start]

theorem Sound.answer (h : Sound H s) {a : Answer} (ha : ∀ cid, a.tells = some cid → s.Reads cid n) :
    Sound H (s.answer n a) := by
  refine { h with answers := fun p hp cid hcid => ?_ }
  rcases List.mem_append.mp hp with hold | hnew
  · exact h.answers p hold cid hcid
  · obtain rfl := List.mem_singleton.mp hnew
    exact ha cid hcid

theorem Sound.refuse (h : Sound H s) {f : Failure} : Sound H (s.answer n (.refused f)) :=
  h.answer fun _ hcid => by simp [Answer.tells] at hcid

theorem Sound.await (h : Sound H s) (hk : s.Allowed k) : Sound H (s.await k) := by
  refine { h with allowed := fun j hj => ?_ }
  have hgrows : Grows s (s.await k) := .of_eq rfl
  rcases List.mem_append.mp hj with hold | hnew
  · exact hgrows.allowed (h.allowed j hold)
  · obtain rfl := List.mem_singleton.mp hnew
    exact hgrows.allowed hk

theorem Sound.finish (h : Sound H s) (task : ℕ) : Sound H (s.finish task) := by
  refine { h with allowed := fun j hj => ?_ }
  have hgrows : Grows s (s.finish task) := .of_eq rfl
  rcases List.mem_or_eq_of_mem_set hj with hold | rfl
  · exact hgrows.allowed (h.allowed j hold)
  · trivial

theorem Sound.log (h : Sound H s) (hbuilt : Built H.toPlatform d.document)
    (hbase : ∀ base, d.base = some base → Owner s.submissions d.owner base) :
    Sound H (s.log d) where
  built := by
    intro e he
    rcases List.mem_append.mp he with hold | hnew
    · exact h.built e hold
    · obtain rfl := List.mem_singleton.mp hnew
      exact hbuilt
  based := by
    intro past e rest heq base he
    simp only [Relay.log] at heq
    rcases List.eq_nil_or_concat' rest with rfl | ⟨rest, f, rfl⟩
    · obtain ⟨rfl, htail⟩ := List.append_inj' heq rfl
      obtain rfl := (List.cons.inj htail).1
      exact hbase base he
    · rw [← List.cons_append, ← List.append_assoc] at heq
      obtain ⟨hpast, -⟩ := List.append_inj' heq rfl
      exact h.based past e rest hpast base he
  kept := by
    intro c r hr
    obtain ⟨hcid, e, he, hdoc⟩ := h.kept c r hr
    exact ⟨hcid, e, List.mem_append_left _ he, hdoc⟩
  owners := fun c r hr n hn => (h.owners c r hr n hn).later d
  readers := fun c r hr n hn => .later (h.readers c r hr n hn)
  allowed := fun k hk => (Grows.of_eq rfl : Grows s (s.log d)).allowed (h.allowed k hk)
  answers := fun p hp cid hcid =>
    (Grows.of_eq rfl : Grows s (s.log d)).reads (h.answers p hp cid hcid)

/-- A record is put under its CID: the document was submitted, its owners submitted it, and its
    readers were named. -/
theorem Sound.put (h : Sound H s) (hgrows : Grows s (s.put cid r)) (hcid : r.document.cid = cid)
    (hkept : ∃ d ∈ s.submissions, d.document = r.document)
    (howners : ∀ n ∈ r.owners, Owner s.submissions n r.document)
    (hreaders : ∀ n ∈ r.readers, Reader s.submissions n r.document) : Sound H (s.put cid r) := by
  have hget : ∀ c r', Maps.get (s.put cid r).contexts c = some r' →
      c = cid ∧ r' = r ∨ Maps.get s.contexts c = some r' := by
    intro c r' hr'
    rw [get_put] at hr'
    split at hr'
    · next heq => exact .inl ⟨heq.symm, (Option.some.inj hr').symm⟩
    · exact .inr hr'
  refine ⟨h.built, h.based, fun c r' hr' => ?_, fun c r' hr' => ?_, fun c r' hr' => ?_,
    fun k hk => hgrows.allowed (h.allowed k hk),
    fun p hp c hc => hgrows.reads (h.answers p hp c hc)⟩
  · rcases hget c r' hr' with ⟨rfl, rfl⟩ | hold
    · exact ⟨hcid, hkept⟩
    · exact h.kept c r' hold
  · rcases hget c r' hr' with ⟨rfl, rfl⟩ | hold
    · exact howners
    · exact h.owners c r' hold
  · rcases hget c r' hr' with ⟨rfl, rfl⟩ | hold
    · exact hreaders
    · exact h.readers c r' hold

theorem log_contexts : (s.log d).contexts = s.contexts := rfl

/-- A record that a submission makes is one that is there, and more. -/
theorem Makes.grows {readers : RawReaders} (h : Makes s d readers r) :
    Grows (s.log d) ((s.log d).put d.document.cid r) := by
  refine .put fun r' hr' => ?_
  rw [log_contexts] at hr'
  rcases h.2 with ⟨hnone, -⟩ | ⟨existing, hget, hd, hos, hrs, -⟩
  · rw [hnone] at hr'
    simp at hr'
  · rw [hget] at hr'
    cases hr'
    exact ⟨hd, hos, hrs⟩

theorem submit_cases (d : Submission) (readers : RawReaders) :
    (∃ f, s.submit H d readers = s.answer d.owner (.refused f)) ∨
    ∃ r a, s.submit H d readers = ((s.log d).put d.document.cid r).answer d.owner a ∧
      (∀ c, a.tells = some c → c = r.document.cid) ∧ Makes s d readers r := by
  unfold submit
  rcases saveContext_cases (H := H) (s := s) d readers with
    ⟨f, heq⟩ | ⟨r, a, heq, hrecord, hmakes⟩
  · rw [heq]
    exact .inl ⟨f, rfl⟩
  · rw [heq]
    cases a with
    | error f => exact .inr ⟨r, _, rfl, by simp [Answer.tells], hmakes⟩
    | ok record =>
      obtain rfl := hrecord record rfl
      exact .inr ⟨record, _, rfl, by simp [Answer.tells], hmakes⟩

theorem submit_keeps (d : Submission) (readers : RawReaders) :
    s.submissions ⊆ (s.submit H d readers).submissions := by
  rcases submit_cases (H := H) (s := s) d readers with ⟨f, heq⟩ | ⟨r, a, heq, -⟩
  · rw [heq]
    exact List.Subset.refl _
  · rw [heq]
    exact List.subset_append_left _ _

/-- What is submitted has the document of the record that is there, as nothing collides. -/
theorem Sound.submit (h : Sound H s) (hcoll : Set.InjOn H.sha256 S) {readers : RawReaders}
    (hbuilt : Built H.toPlatform d.document)
    (hS : ∀ e ∈ (s.submit H d readers).submissions, e.document.digested ⊆ S)
    (hbase : ∀ b, d.base = some b → Owner s.submissions d.owner b)
    (hreaders : ∀ l, contextReaders readers = .ok l → ∀ n ∈ l,
      Reader (s.submissions ++ [d]) n d.document) : Sound H (s.submit H d readers) := by
  rcases submit_cases (H := H) (s := s) d readers with
    ⟨f, heq⟩ | ⟨r, a, heq, htells, howner, hnew⟩
  · rw [heq]
    exact h.refuse
  have hlog := h.log hbuilt hbase
  have hown : Owner (s.submissions ++ [d]) d.owner d.document :=
    ⟨d, List.mem_append_right _ (List.mem_singleton_self d), rfl, rfl⟩
  rw [heq] at hS ⊢
  have hdocument : r.document = d.document := by
    rcases hnew with ⟨-, hd, -⟩ | ⟨existing, hget, hd, -⟩
    · exact hd
    · obtain ⟨hcid, e, he, hdoc⟩ := h.kept d.document.cid existing hget
      rw [hd]
      refine blocks_of_cid (hdoc ▸ h.built e he) hbuilt hcoll ?_ ?_ hcid
      · exact hdoc ▸ hS e (List.mem_append_left _ he)
      · exact hS d (List.mem_append_right _ (List.mem_singleton_self d))
  have hput := hlog.put (r := r) (Makes.grows ⟨howner, hnew⟩) (by rw [hdocument])
    ⟨d, List.mem_append_right _ (List.mem_singleton_self d), hdocument.symm⟩ ?_ ?_
  · refine hput.answer fun c hc => Owns.reads ⟨r, ?_, howner⟩
    rw [htells c hc, hdocument]
    exact get_put_self
  · intro n hn
    rcases hnew with ⟨-, -, hos, -⟩ | ⟨existing, hget, hd, -, -, hos, -⟩
    · rw [hos n hn, hdocument]
      exact hown
    · rcases hos n hn with hold | rfl
      · rw [hd]
        exact (h.owners d.document.cid existing hget n hold).later _
      · rw [hdocument]
        exact hown
  · intro n hn
    have hnamed : (∃ l, contextReaders readers = .ok l ∧ n ∈ l) →
        Reader (s.submissions ++ [d]) n r.document := by
      rintro ⟨l, hl, hn⟩
      rw [hdocument]
      exact hreaders l hl n hn
    rcases hnew with ⟨-, -, -, hrs⟩ | ⟨existing, hget, hd, -, -, -, hrs⟩
    · exact hnamed (hrs n hn)
    · refine (hrs n hn).elim (fun hold => ?_) hnamed
      rw [hd]
      exact .later (h.readers d.document.cid existing hget n hold)

/-! ### The handlers -/

theorem Sound.publish (h : Sound H s) (node : Option NodeId) (dispatches : Bool) :
    Sound H (s.publish node dispatches) := by
  unfold Relay.publish
  split
  · exact h.refuse
  split
  · exact h.refuse
  · exact h.await trivial

theorem Sound.context (h : Sound H s) (node : Option NodeId) (cid : Cid) (action : Action)
    (dispatches : Bool) : Sound H (s.context node cid action dispatches) := by
  unfold Relay.context
  split
  · exact h.refuse
  next n =>
  split
  · exact h.refuse
  next record hget =>
  have hreads : ¬(!canReadContext record n) = true → s.Reads cid n := fun hcan =>
    ⟨record, hget, by simpa using hcan⟩
  cases action with
  | delta =>
    dsimp only
    split
    · exact h.refuse
    · next howner =>
      rw [not_or, not_not] at howner
      exact h.await ⟨record, hget, howner.2⟩
  | manifest =>
    dsimp only
    split
    · exact h.refuse
    · next hcan =>
      refine h.answer fun c hc => ?_
      obtain rfl : cid = c := (h.kept cid record hget).1.symm.trans (Option.some.inj hc)
      exact hreads hcan
  | select =>
    dsimp only
    split
    · exact h.refuse
    · next hcan => exact h.await (hreads hcan)
  | retrieve =>
    dsimp only
    split
    · exact h.refuse
    · next hcan => exact h.await (hreads hcan)

theorem Sound.published (h : Sound H s) (hcoll : Set.InjOn H.sha256 S) {owner : NodeId}
    (hS : ∀ e ∈ (s.published H owner b).submissions, e.document.digested ⊆ S) :
    Sound H (s.published H owner b) := by
  unfold Relay.published at hS ⊢
  cases hverified : b.verified with
  | error reason => exact h.refuse
  | ok =>
    simp only [hverified] at hS ⊢
    cases hbuild : buildContextDocument H.toPlatform b.blocks with
    | error e => exact h.refuse
    | ok d =>
      simp only [hbuild, internal] at hS ⊢
      exact h.submit hcoll (buildContextDocument_ok hbuild) hS (fun _ hb => by simp at hb)
        fun l hl n hn => .named ⟨l, hl, hn⟩

theorem mem_inherit {base named : List NodeId} (h : contextReaders (inherit base named) = .ok l)
    (hn : n ∈ l) : n ∈ base ∨ n ∈ named := by
  simp only [inherit, contextReaders] at h
  split at h
  · simp at h
  · cases h
    simpa [setOf] using hn

theorem Sound.changed (h : Sound H s) (hcoll : Set.InjOn H.sha256 S) {owner : NodeId}
    (howns : s.Owns cid owner)
    (hS : ∀ e ∈ (s.changed H owner cid b).submissions, e.document.digested ⊆ S) :
    Sound H (s.changed H owner cid b) := by
  obtain ⟨record, hget, howner⟩ := howns
  unfold Relay.changed at hS ⊢
  simp only [hget] at hS ⊢
  cases hverified : b.verified with
  | error reason => exact h.refuse
  | ok =>
    simp only [hverified] at hS ⊢
    by_cases hbase : b.baseCid ≠ some cid
    · rw [if_pos hbase]
      exact h.refuse
    simp only [if_neg hbase] at hS ⊢
    cases hnext : H.nextDocument record.document b.ops with
    | error e => exact h.refuse
    | ok d =>
      simp only [hnext, internal] at hS ⊢
      cases hnamed : contextReaders b.readers with
      | error f => exact h.refuse
      | ok named =>
        simp only [hnamed] at hS ⊢
        have hbuilt : Built H.toPlatform d := by
          obtain ⟨bs, -, hbuild⟩ := bind_ok.mp hnext
          exact buildContextDocument_ok hbuild
        refine h.submit hcoll hbuilt hS (fun doc hdoc => ?_) fun l hl n hn => ?_
        · exact Option.some.inj hdoc ▸ h.owners cid record hget owner howner
        · rcases mem_inherit hl hn with hbase | hnew
          · exact .inherited rfl (h.readers cid record hget n hbase)
          · exact .named ⟨named, hnamed, hnew⟩

theorem Sound.selected (h : Sound H s) (hreads : s.Reads cid n) :
    Sound H (s.selected n cid b) := by
  obtain ⟨record, hget, -⟩ := id hreads
  simp only [Relay.selected, hget]
  split
  · exact h.refuse
  split
  · exact h.refuse
  split
  · exact h.refuse
  · exact h.answer fun c hc => Option.some.inj hc ▸ hreads

theorem Sound.retrieved (h : Sound H s) (hreads : s.Reads cid n) :
    Sound H (s.retrieved H n cid b) := by
  obtain ⟨record, hget, -⟩ := id hreads
  simp only [Relay.retrieved, hget]
  split
  · exact h.refuse
  split
  · exact h.refuse
  split
  · exact h.refuse
  split
  · exact h.refuse
  split
  · exact h.refuse
  · exact h.answer fun c hc => Option.some.inj hc ▸ hreads

theorem Sound.goOn (h : Sound H s) (hcoll : Set.InjOn H.sha256 S) (hk : s.Allowed k)
    {b : Except Failure Body} (hS : ∀ e ∈ (s.goOn H b k).submissions, e.document.digested ⊆ S) :
    Sound H (s.goOn H b k) := by
  cases b with
  | error f =>
    cases k with
    | done => exact h
    | publish | select | retrieve | delta => exact h.refuse
  | ok b =>
    cases k with
    | publish owner => exact h.published hcoll hS
    | select n cid => exact h.selected hk
    | retrieve n cid => exact h.retrieved hk
    | delta owner cid => exact h.changed hcoll hk hS
    | done => exact h

theorem Sound.step (h : Sound H s) (hcoll : Set.InjOn H.sha256 S) (e : Event)
    (hS : ∀ d ∈ (s.step H e).submissions, d.document.digested ⊆ S) : Sound H (s.step H e) := by
  cases e with
  | publish node dispatches => exact h.publish node dispatches
  | context node cid action dispatches => exact h.context node cid action dispatches
  | body task b =>
    simp only [Relay.step] at hS ⊢
    cases hk : s.tasks[task]? with
    | none => exact h
    | some k =>
      simp only [hk] at hS ⊢
      have hgrows : Grows s (s.finish task) := .of_eq rfl
      exact (h.finish task).goOn hcoll (hgrows.allowed (h.allowed k (List.mem_of_getElem? hk))) hS

/-! ### Whole runs -/

/-- What no submission changes. -/
def Same (s t : Relay) : Prop := t.contexts = s.contexts ∧ t.submissions = s.submissions

theorem goOn_cases (b : Except Failure Body) (k : Task) : Same s (s.goOn H b k) ∨
    ∃ d readers, s.goOn H b k = s.submit H d readers := by
  cases b with
  | error f => cases k <;> exact .inl ⟨rfl, rfl⟩
  | ok b =>
    cases k <;> simp only [Relay.goOn, Relay.published, Relay.selected, Relay.retrieved,
      Relay.changed]
    all_goals
      repeat' split
      any_goals exact .inl ⟨rfl, rfl⟩
      all_goals exact .inr ⟨_, _, rfl⟩

/-- A step submits a document, or leaves records and log alone. -/
theorem step_cases (e : Event) : Same s (s.step H e) ∨
    ∃ t d readers, Same s t ∧ s.step H e = t.submit H d readers := by
  cases e with
  | publish node dispatches =>
    simp only [Relay.step, Relay.publish]
    repeat' split
    all_goals exact .inl ⟨rfl, rfl⟩
  | context node cid action dispatches =>
    simp only [Relay.step, Relay.context]
    repeat' split
    all_goals exact .inl ⟨rfl, rfl⟩
  | body task b =>
    simp only [Relay.step]
    split
    · exact .inl ⟨rfl, rfl⟩
    · next k _ =>
      rcases goOn_cases (H := H) (s := s.finish task) b k with h | ⟨d, readers, h⟩
      · exact .inl h
      · exact .inr ⟨s.finish task, d, readers, ⟨rfl, rfl⟩, h⟩

/-- What was submitted stays in the log. -/
theorem step_keeps (e : Event) : s.submissions ⊆ (s.step H e).submissions := by
  rcases step_cases (H := H) (s := s) e with ⟨-, h⟩ | ⟨t, d, readers, ⟨-, h⟩, heq⟩
  · exact h ▸ List.Subset.refl _
  · exact heq ▸ h ▸ submit_keeps d readers

theorem Sound.run (es : List Event) (hcoll : Set.InjOn H.sha256 S)
    (hS : ∀ d ∈ (run H es).submissions, d.document.digested ⊆ S) : Sound H (run H es) := by
  induction es using List.reverseRecOn with
  | nil => exact .start
  | append_singleton es e ih =>
    rw [Context.run, List.foldl_append] at hS ⊢
    exact (ih fun d hd => hS d (step_keeps e hd)).step hcoll e hS

theorem submit_room (d : Submission) (readers : RawReaders)
    (h : s.contexts.length ≤ H.maxContexts) :
    (s.submit H d readers).contexts.length ≤ H.maxContexts := by
  have hsave : (s.saveContext H d readers).1.contexts.length ≤ H.maxContexts := by
    unfold saveContext
    dsimp only
    split
    · next existing hget =>
      split <;> simpa [Relay.put, Relay.log, Maps.length_set, hget]
    · next hget =>
      split
      · exact h
      · next hroom =>
        split
        · exact h
        · simpa [Relay.put, Relay.log, Maps.length_set, hget] using hroom
  unfold submit
  split <;> simpa [Relay.answer, *] using hsave

theorem submit_grows (d : Submission) (readers : RawReaders) : Grows s (s.submit H d readers) := by
  rcases submit_cases (H := H) (s := s) d readers with ⟨f, heq⟩ | ⟨r, a, heq, -, hmakes⟩
  · exact heq ▸ .of_eq rfl
  · exact heq ▸ hmakes.grows

theorem kept_step (e : Event) (h : s.contexts.length ≤ H.maxContexts) :
    Grows s (s.step H e) ∧ (s.step H e).contexts.length ≤ H.maxContexts := by
  rcases step_cases (H := H) (s := s) e with ⟨hs, -⟩ | ⟨t, d, readers, ⟨hs, -⟩, heq⟩
  · exact ⟨.of_eq hs, hs ▸ h⟩
  · rw [heq]
    exact ⟨(Grows.of_eq hs).trans (submit_grows d readers), submit_room d readers (hs ▸ h)⟩

theorem kept_run (es : List Event) (h : s.contexts.length ≤ H.maxContexts) :
    Grows s (es.foldl (Relay.step H) s) ∧
      (es.foldl (Relay.step H) s).contexts.length ≤ H.maxContexts := by
  induction es generalizing s with
  | nil => exact ⟨.of_eq rfl, h⟩
  | cons e es ih =>
    obtain ⟨hgrows, hroom⟩ := kept_step e h
    exact ⟨hgrows.trans (ih hroom).1, (ih hroom).2⟩

end Relay

/-- A text whose digest some submission has. -/
def Digested (H : Host) (es : List Event) (t : JsString) : Prop :=
  ∃ d ∈ (run H es).submissions, t ∈ d.document.digested

/-- After any requests, whoever can read a document, or was told of it, has submitted it or was
    named by an owner of it or of one it comes from; and deltas are taken from owners of their bases. -/
theorem reads_entitled (H : Host) (es : List Event) (hcoll : Set.InjOn H.sha256 (Digested H es))
    (n : NodeId) (cid : Cid) (hreads : (run H es).Reads cid n ∨
      ∃ a, (n, a) ∈ (run H es).answers ∧ a.tells = some cid) :
    (∃ r, Maps.get (run H es).contexts cid = some r ∧
      (Owner (run H es).submissions n r.document ∨ Reader (run H es).submissions n r.document)) ∧
    ∀ past d rest, (run H es).submissions = past ++ d :: rest → ∀ base, d.base = some base →
      Owner past d.owner base := by
  have hsound : Relay.Sound H (run H es) := .run es hcoll fun d hd t ht => ⟨d, hd, ht⟩
  have hnow : (run H es).Reads cid n :=
    hreads.elim id fun ⟨a, ha, htells⟩ => hsound.answers (n, a) ha cid htells
  obtain ⟨r, hget, hcan⟩ := hnow
  refine ⟨⟨r, hget, ?_⟩, hsound.based⟩
  simp only [canReadContext, decide_eq_true_eq] at hcan
  exact hcan.imp (hsound.owners cid r hget n) (hsound.readers cid r hget n)

/-- Whatever is asked later, a document stays, as it is, with whoever may read it; and there are
    never more of them than there is room for. -/
theorem documents_kept (H : Host) (es later : List Event) :
    (run H es).Grows (run H (es ++ later)) ∧
    (∀ cid n, (run H es).Reads cid n → (run H (es ++ later)).Reads cid n) ∧
    (run H es).contexts.length ≤ H.maxContexts := by
  have hroom : (run H es).contexts.length ≤ H.maxContexts :=
    (Relay.kept_run es (s := .start) (Nat.zero_le _)).2
  have hgrows : (run H es).Grows (run H (es ++ later)) := by
    rw [run, run, List.foldl_append]
    exact (Relay.kept_run later hroom).1
  exact ⟨hgrows, fun cid n hreads => hgrows.reads hreads, hroom⟩

/-- The digests of one block and its document. -/
def oneBlock : Host where
  collation := ⟨unitsLe, unitsLe_trans, unitsLe_total⟩
  sha256 t :=
    if t = blockText (js "a") (js "x") then
      hexText 0x40c0bc08fb0525db40e29b471e3a9d104357bddc4e10f852cb32d53cd4feb59b
    else hexText 0x7b4432e82066e8817e0dde0b028e4588cdea5dafa3e7a9a1d7b6812e539332bb
  retrieveContextBlocks blocks _ _ := .ok blocks
  maxContexts := 1

/-- `A` puts a block and names `B`. -/
def shared : List Event :=
  [.publish (some (js "A")) true,
    .body 0 (.ok
      { verified := .ok ()
        blocks := some [⟨some (js "a"), some (js "x")⟩]
        readers := .list [some (js "B")]
        baseCid := none
        ops := none
        ids := none
        query := none
        topK := none })]

def sharedBlock : DocumentBlock :=
  ⟨⟨js "a", js "x"⟩, js "truyn:ctxb:" ++ oneBlock.sha256 (blockText (js "a") (js "x")), 1⟩

theorem shared_injOn : Set.InjOn oneBlock.sha256 (Digested oneBlock shared) := by
  have hlog : (run oneBlock shared).submissions.map (fun d => d.document.blocks) =
      [[sharedBlock]] := by
    rfl
  have htexts : ∀ t, Digested oneBlock shared t →
      t = manifestText (refs [sharedBlock]) ∨ t = blockText (js "a") (js "x") := by
    rintro t ⟨d, hd, ht⟩
    have hblocks : d.document.blocks = [sharedBlock] := by
      have hmem := List.mem_map_of_mem (f := fun d : Submission => d.document.blocks) hd
      rwa [hlog, List.mem_singleton] at hmem
    simp only [Document.digested, hblocks, List.mem_singleton, exists_eq_left] at ht
    exact ht
  have hne : oneBlock.sha256 (manifestText (refs [sharedBlock])) ≠
      oneBlock.sha256 (blockText (js "a") (js "x")) := by
    decide
  intro t ht u hu h
  rcases htexts t ht with rfl | rfl <;> rcases htexts u hu with rfl | rfl
  · rfl
  · exact absurd h hne
  · exact absurd h.symm hne
  · rfl

theorem reads_entitled_shared : ∃ r, Maps.get (run oneBlock shared).contexts
    (js "truyn:ctx:7b4432e82066e8817e0dde0b028e4588cdea5dafa3e7a9a1d7b6812e539332bb") = some r ∧
    (Owner (run oneBlock shared).submissions (js "B") r.document ∨
      Reader (run oneBlock shared).submissions (js "B") r.document) := by
  have hread : (run oneBlock shared).Reads
      (js "truyn:ctx:7b4432e82066e8817e0dde0b028e4588cdea5dafa3e7a9a1d7b6812e539332bb") (js "B") := by
    have hcid : js "truyn:ctx:7b4432e82066e8817e0dde0b028e4588cdea5dafa3e7a9a1d7b6812e539332bb" =
        js "truyn:ctx:" ++ hexText 0x7b4432e82066e8817e0dde0b028e4588cdea5dafa3e7a9a1d7b6812e539332bb := by
      rw [js_ofList, js_ofList]
      rfl
    rw [hcid]
    exact ⟨_, rfl, by rfl⟩
  exact (reads_entitled oneBlock shared shared_injOn _ _ (.inl hread)).1

end Truyn.Context
