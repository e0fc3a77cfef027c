import Truyn.Schemes.Async

/-! scheme:cas | optimistic concurrency on documents with entity tags

    A document service keeps every document under a key. A write of an existing document names the
    version it was computed from and is refused when the document has moved on; a creation is
    refused when the document exists. A client call is one creation, or a loop that reads the
    document, computes the next version with a callback and writes it back, again and again until
    the tag still matches or its attempts are used up. Reads may be stale, requests may be lost, and
    a request whose caller has given up may still be executed.

    The library proves that the versions of every document form a lineage: one creation, and then
    callback steps, each from the version before it. -/

namespace Truyn.Cas
open Async

variable {κ χ ν α β φ : Type*}

/-- A version of a document: the call that wrote it, when it was computed, and what it says. -/
structure Version (χ ν α : Type*) where
  call : χ
  time : ν
  doc : α

/-- The versions of one document, newest first: created once, then edited from version to version. -/
inductive Lineage (create : χ → ν → α → Prop) (edit : χ → ν → α → α → Prop) :
    List (Version χ ν α) → Prop
  | nil : Lineage create edit []
  | create {c : χ} {t : ν} {d : α} : create c t d → Lineage create edit [⟨c, t, d⟩]
  | edit {c : χ} {t : ν} {d : α} {v : Version χ ν α} {l : List (Version χ ν α)} :
      Lineage create edit (v :: l) → edit c t v.doc d → Lineage create edit (⟨c, t, d⟩ :: v :: l)

/-- Reading every version through `f` gives a lineage of what `f` makes of creations and edits. -/
theorem Lineage.map {create : χ → ν → α → Prop} {edit : χ → ν → α → α → Prop}
    {create' : χ → ν → β → Prop} {edit' : χ → ν → β → β → Prop} (f : α → β)
    (hc : ∀ c t d, create c t d → create' c t (f d))
    (he : ∀ c t d d', edit c t d d' → edit' c t (f d) (f d')) {l : List (Version χ ν α)}
    (h : Lineage create edit l) :
    Lineage create' edit' (l.map fun v => ⟨v.call, v.time, f v.doc⟩) := by
  induction h with
  | nil => exact .nil
  | create h => exact .create (hc _ _ _ h)
  | edit _ h ih => exact .edit ih (he _ _ _ _ h)

/-- What a client does with its calls. -/
structure Client (κ χ ν α φ : Type*) where
  /-- The document a call is about. -/
  key : χ → κ
  /-- Before the first request: refuse, create the given document, or (`none`) edit the stored one. -/
  plan : χ → ν → Except φ (Option α)
  /-- The callback of the loop: refuse, leave the version it got (`none`), or write the next one. -/
  edit : χ → ν → α → Except φ (Option α)
  /-- How often a refused write is tried again. -/
  retries : ℕ
  absent : φ
  duplicate : φ
  contention : φ

/-- A call with a request in flight; `waiting` tells whether its caller still listens. -/
inductive Task (χ ν α : Type*)
  | creating (c : χ) (t : ν) (d : α) (waiting : Bool)
  | reading (c : χ) (left : ℕ)
  | writing (c : χ) (t : ν) (tag : ℕ) (d : α) (left : ℕ) (waiting : Bool)

/-- What happens next: a new call, a read served from `age` versions ago, a request executed by the
    service (whose caller hears `fault` if the reply gets lost), a caller that gives up, a request
    that is never executed. -/
inductive Event (χ ν φ : Type*)
  | call (c : χ) (now : ν)
  | read (age : ℕ) (now : ν)
  | execute (fault : Option φ)
  | giveUp (fault : φ)
  | fail (fault : φ)

/-- The service with every version of every document, and what callers were answered (latest first):
    a fault, or whether the call wrote together with the document it saw or wrote. -/
structure World (κ χ ν α φ : Type*) where
  docs : κ → List (Version χ ν α)
  answers : List (χ × Except φ (Bool × α))

def World.answer (w : World κ χ ν α φ) (c : χ) (a : Except φ (Bool × α)) : World κ χ ν α φ :=
  { w with answers := (c, a) :: w.answers }

/-- An answer that reaches its caller only if the caller still waits. -/
def World.reply (w : World κ χ ν α φ) (waiting : Bool) (c : χ) (a : Except φ (Bool × α)) :
    World κ χ ν α φ :=
  if waiting then w.answer c a else w

@[simp] theorem World.reply_docs (w : World κ χ ν α φ) (b : Bool) (c : χ)
    (a : Except φ (Bool × α)) : (w.reply b c a).docs = w.docs := by
  cases b <;> rfl

/-- Documents only gain versions. -/
def Grows (w w' : World κ χ ν α φ) : Prop := ∀ k, w.docs k <:+ w'.docs k

variable {w w' : World κ χ ν α φ} {s s' : Sys (World κ χ ν α φ) (Task χ ν α)} {k : κ}
  {C : Client κ χ ν α φ} {v : Version χ ν α} {c : χ} {t : Option (Task χ ν α)} {d : α} {b : Bool}
  {e : Event χ ν φ} {ts : List (Task χ ν α)} {f : φ}

theorem grows_of_docs (h : w'.docs = w.docs) : Grows w w' := fun k => by
  rw [h]

variable [DecidableEq κ]

/-- The service stores one more version. -/
def World.store (w : World κ χ ν α φ) (k : κ) (v : Version χ ν α) : World κ χ ν α φ :=
  { w with docs := Function.update w.docs k (v :: w.docs k) }

@[simp] theorem World.store_docs (w : World κ χ ν α φ) (k : κ) (v : Version χ ν α) :
    (w.store k v).docs k = v :: w.docs k := by simp [store]

theorem World.store_docs_ne {k' : κ} (h : k' ≠ k) (w : World κ χ ν α φ) (v : Version χ ν α) :
    (w.store k v).docs k' = w.docs k' := by simp [store, h]

/-- A call resumed with the version it read. -/
def resume (C : Client κ χ ν α φ) (w : World κ χ ν α φ) (c : χ) (left age : ℕ) (now : ν) :
    World κ χ ν α φ × List (Task χ ν α) :=
  match (w.docs (C.key c)).drop age with
  | [] => (w.answer c (.error C.absent), [])
  | v :: older =>
    match C.edit c now v.doc with
    | .error f => (w.answer c (.error f), [])
    | .ok none => (w.answer c (.ok (false, v.doc)), [])
    | .ok (some d) => (w, [.writing c now (older.length + 1) d left true])

/-- The service executes a creation. -/
def execCreate (C : Client κ χ ν α φ) (w : World κ χ ν α φ) (c : χ) (t : ν) (d : α)
    (listens : Bool) : World κ χ ν α φ :=
  match w.docs (C.key c) with
  | [] => (w.store (C.key c) ⟨c, t, d⟩).reply listens c (.ok (true, d))
  | _ :: _ => w.reply listens c (.error C.duplicate)

/-- The service executes a write that names version `tag`; a refused one is tried again. -/
def execWrite (C : Client κ χ ν α φ) (w : World κ χ ν α φ) (c : χ) (t : ν) (tag : ℕ) (d : α)
    (left : ℕ) (listens : Bool) : World κ χ ν α φ × List (Task χ ν α) :=
  if (w.docs (C.key c)).length = tag then
    ((w.store (C.key c) ⟨c, t, d⟩).reply listens c (.ok (true, d)), [])
  else if listens then
    match left with
    | 0 => (w.answer c (.error C.contention), [])
    | n + 1 => (w, [.reading c n])
  else (w, [])

/-- The client's calls against the service. -/
def machine (C : Client κ χ ν α φ) : Machine (World κ χ ν α φ) (Task χ ν α) (Event χ ν φ)
  | w, none, .call c now =>
    match C.plan c now with
    | .error f => some (w.answer c (.error f), [])
    | .ok none => some (w, [.reading c C.retries])
    | .ok (some d) => some (w, [.creating c now d true])
  | w, some (.reading c left), .read age now => some (resume C w c left age now)
  | w, some (.reading c _), .fail f => some (w.answer c (.error f), [])
  | w, some (.creating c t d waiting), .execute none => some (execCreate C w c t d waiting, [])
  | w, some (.creating c t d waiting), .execute (some f) =>
    some ((execCreate C w c t d false).reply waiting c (.error f), [])
  | w, some (.creating c t d waiting), .giveUp f =>
    some (w.reply waiting c (.error f), [.creating c t d false])
  | w, some (.creating c _ _ waiting), .fail f => some (w.reply waiting c (.error f), [])
  | w, some (.writing c t tag d left waiting), .execute none =>
    some (execWrite C w c t tag d left waiting)
  | w, some (.writing c t tag d left waiting), .execute (some f) =>
    some ((execWrite C w c t tag d left false).1.reply waiting c (.error f), [])
  | w, some (.writing c t tag d left waiting), .giveUp f =>
    some (w.reply waiting c (.error f), [.writing c t tag d left false])
  | w, some (.writing c _ _ _ _ waiting), .fail f => some (w.reply waiting c (.error f), [])
  | _, _, _ => none

/-- A service that stores nothing yet. -/
def init : Sys (World κ χ ν α φ) (Task χ ν α) := ⟨⟨fun _ => [], []⟩, []⟩

/-! ### What one step does -/

/-- The call got past its plan and into the loop. -/
def Client.Admits (C : Client κ χ ν α φ) (c : χ) : Prop := ∃ t, C.plan c t = .ok none

/-- `v` may follow the versions `old` of its document: as their creation, or as an edit of the
    newest of them. -/
def Client.Next (C : Client κ χ ν α φ) (old : List (Version χ ν α)) (v : Version χ ν α) : Prop :=
  match old with
  | [] => C.plan v.call v.time = .ok (some v.doc)
  | u :: _ => C.Admits v.call ∧ C.edit v.call v.time u.doc = .ok (some v.doc)

/-- The service stored one more version, of the document its call is about. -/
def Stored (C : Client κ χ ν α φ) (w w' : World κ χ ν α φ) (v : Version χ ν α) : Prop :=
  C.Next (w.docs (C.key v.call)) v ∧ w'.docs = (w.store (C.key v.call) v).docs

/-- What a request in flight was computed from. -/
def Pending (C : Client κ χ ν α φ) (w : World κ χ ν α φ) : Task χ ν α → Prop
  | .creating c t d _ => C.plan c t = .ok (some d)
  | .reading c _ => C.Admits c
  | .writing c t tag d _ _ => C.Admits c ∧ ∃ v older, v :: older <:+ w.docs (C.key c) ∧
      tag = older.length + 1 ∧ C.edit c t v.doc = .ok (some d)

theorem Stored.grows (h : Stored C w w' v) : Grows w w' := by
  intro k
  rw [h.2]
  by_cases hk : k = C.key v.call
  · subst hk
    rw [World.store_docs]
    exact List.suffix_cons _ _
  · rw [World.store_docs_ne hk]

theorem execCreate_docs {t : ν} (hp : C.plan c t = .ok (some d)) :
    (execCreate C w c t d b).docs = w.docs ∨ Stored C w (execCreate C w c t d b) ⟨c, t, d⟩ := by
  unfold execCreate
  split
  · next h => exact Or.inr ⟨by rw [h]; exact hp, World.reply_docs ..⟩
  · exact Or.inl (World.reply_docs ..)

theorem execWrite_docs {t : ν} {tag : ℕ} {left : ℕ} {b' : Bool}
    (hp : Pending C w (.writing c t tag d left b')) :
    (execWrite C w c t tag d left b).1.docs = w.docs ∨
      Stored C w (execWrite C w c t tag d left b).1 ⟨c, t, d⟩ := by
  obtain ⟨hadm, v, older, hsuf, rfl, he⟩ := hp
  unfold execWrite
  split
  · -- the tag is current: what was read is still the newest version
    next hlen =>
    have hnew : w.docs (C.key c) = v :: older :=
      (hsuf.eq_of_length (by simp [hlen])).symm
    exact Or.inr ⟨by rw [hnew]; exact ⟨hadm, he⟩, World.reply_docs ..⟩
  · split
    · split <;> exact Or.inl rfl
    · exact Or.inl rfl

/-- Only the service writes: a step leaves the documents alone, or it executes a request whose call
    adds one version. -/
theorem machine_docs (h : machine C w t e = some (w', ts)) (hp : ∀ x ∈ t, Pending C w x) :
    w'.docs = w.docs ∨ (∃ f, e = .execute f) ∧ ∃ v, Stored C w w' v := by
  unfold machine at h
  split at h
  · -- a new call
    split at h <;> cases h <;> exact Or.inl rfl
  · -- a read
    next c left age now =>
    have hr : resume C w c left age now = (w', ts) := Option.some.inj h
    refine Or.inl ?_
    have : w' = (resume C w c left age now).1 := by rw [hr]
    rw [this, resume]
    split
    · rfl
    · split <;> rfl
  · cases h; exact Or.inl rfl
  · -- a creation is executed
    cases h
    exact (execCreate_docs (hp _ rfl)).imp id fun hs => ⟨⟨_, rfl⟩, _, hs⟩
  · cases h
    refine (execCreate_docs (b := false) (hp _ rfl)).imp ?_ fun hs => ⟨⟨_, rfl⟩, _, hs.1, ?_⟩
    · exact fun hs => (World.reply_docs ..).trans hs
    · exact (World.reply_docs ..).trans hs.2
  · cases h; exact Or.inl (World.reply_docs ..)
  · cases h; exact Or.inl (World.reply_docs ..)
  · -- a write is executed
    next c t tag d left waiting =>
    have hr : execWrite C w c t tag d left waiting = (w', ts) := Option.some.inj h
    have hw : w' = (execWrite C w c t tag d left waiting).1 := by rw [hr]
    subst hw
    exact (execWrite_docs (hp _ rfl)).imp id fun hs => ⟨⟨_, rfl⟩, _, hs⟩
  · cases h
    refine (execWrite_docs (b := false) (hp _ rfl)).imp ?_ fun hs => ⟨⟨_, rfl⟩, _, hs.1, ?_⟩
    · exact fun hs => (World.reply_docs ..).trans hs
    · exact (World.reply_docs ..).trans hs.2
  · cases h; exact Or.inl (World.reply_docs ..)
  · cases h; exact Or.inl (World.reply_docs ..)
  · cases h

omit [DecidableEq κ] in
/-- A reply of success is no news of a fault. -/
theorem reply_ok_ne {c' : χ} {r : Bool × α} :
    (w.reply b c (.ok r)).answers ≠ (c', .error f) :: w.answers := by
  cases b
  · exact fun h => absurd (congrArg List.length h) (by simp [World.reply])
  · simp [World.reply, World.answer]

/-- A call that is told a fault, no reply having been lost, has written nothing in that step. -/
theorem machine_fault (h : machine C w t e = some (w', ts))
    (ha : w'.answers = (c, .error f) :: w.answers) (hl : ∀ f', e ≠ .execute (some f')) :
    w'.docs = w.docs := by
  unfold machine at h
  split at h
  · split at h <;> cases h <;> rfl
  · next c left age now =>
    have hr : resume C w c left age now = (w', ts) := Option.some.inj h
    have : w' = (resume C w c left age now).1 := by rw [hr]
    rw [this, resume]
    split
    · rfl
    · split <;> rfl
  · cases h; rfl
  · cases h
    unfold execCreate at ha ⊢
    split
    · next hd => simp only [hd] at ha; exact absurd ha reply_ok_ne
    · exact World.reply_docs ..
  · next f' => exact absurd rfl (hl f')
  · cases h; exact World.reply_docs ..
  · cases h; exact World.reply_docs ..
  · next c t tag d left waiting =>
    have hr : execWrite C w c t tag d left waiting = (w', ts) := Option.some.inj h
    have hw : w' = (execWrite C w c t tag d left waiting).1 := by rw [hr]
    subst hw
    unfold execWrite at ha ⊢
    split
    · next hd => simp only [hd, if_true] at ha; exact absurd ha reply_ok_ne
    · split
      · split <;> rfl
      · rfl
  · next f' => exact absurd rfl (hl f')
  · cases h; exact World.reply_docs ..
  · cases h; exact World.reply_docs ..
  · cases h

omit [DecidableEq κ] in
theorem pending_grows {x : Task χ ν α} (hg : Grows w w') (hp : Pending C w x) : Pending C w' x := by
  cases x with
  | creating c t d b => exact hp
  | reading c left => exact hp
  | writing c t tag d left b =>
    obtain ⟨hadm, v, older, hs, ht, he⟩ := hp
    exact ⟨hadm, v, older, hs.trans (hg _), ht, he⟩

/-- What a step leaves in flight was computed from what it read. -/
theorem machine_pending (h : machine C w t e = some (w', ts)) (hp : ∀ x ∈ t, Pending C w x) :
    ∀ x ∈ ts, Pending C w' x := by
  unfold machine at h
  split at h
  · split at h <;> cases h
    · simp
    · next hpl =>
      simp only [List.mem_singleton, forall_eq]
      exact ⟨_, hpl⟩
    · next hpl => simpa [Pending] using hpl
  · next c left age now =>
    have hr : resume C w c left age now = (w', ts) := Option.some.inj h
    unfold resume at hr
    split at hr
    · cases hr; simp
    · next v older hv =>
      split at hr <;> cases hr
      · simp
      · simp
      · next he =>
        simp only [List.mem_singleton, forall_eq]
        exact ⟨hp _ rfl, v, older, hv ▸ List.drop_suffix _ _, rfl, he⟩
  · cases h; simp
  · cases h; simp
  · cases h; simp
  · cases h
    simpa [Pending] using hp _ rfl
  · cases h; simp
  · next c t tag d left waiting =>
    have hr : execWrite C w c t tag d left waiting = (w', ts) := Option.some.inj h
    unfold execWrite at hr
    split at hr
    · cases hr; simp
    · split at hr
      · split at hr <;> cases hr
        · simp
        · simp only [List.mem_singleton, forall_eq]
          exact (hp _ rfl).1
      · cases hr; simp
  · cases h; simp
  · cases h
    have := hp _ rfl
    simpa [Pending] using this
  · cases h; simp
  · cases h

/-! ### Runs -/

/-- The versions of one document under the client's own plan and callback. -/
def Client.Lineage (C : Client κ χ ν α φ) (k : κ) : List (Version χ ν α) → Prop :=
  Cas.Lineage (fun c t d => C.key c = k ∧ C.plan c t = .ok (some d))
    (fun c t d d' => C.key c = k ∧ C.Admits c ∧ C.edit c t d = .ok (some d'))

omit [DecidableEq κ] in
theorem Client.Lineage.next {old : List (Version χ ν α)} (h : C.Lineage k old)
    (hk : C.key v.call = k) (hv : C.Next old v) :
    C.Lineage k (v :: old) := by
  cases old with
  | nil => exact .create ⟨hk, hv⟩
  | cons u l => exact .edit h ⟨hk, hv⟩

theorem Stored.lineage (h : Stored C w w' v) (hl : ∀ k, C.Lineage k (w.docs k)) (k : κ) :
    C.Lineage k (w'.docs k) := by
  rw [h.2]
  by_cases hk : k = C.key v.call
  · subst hk
    rw [World.store_docs]
    exact (hl _).next rfl h.1
  · rw [World.store_docs_ne hk]
    exact hl k

/-- Every document has a lineage, requests in flight are backed, documents only grow. -/
theorem machine_sound (C : Client κ χ ν α φ) :
    Sound (machine C) free (fun w => ∀ k, C.Lineage k (w.docs k)) (Pending C) Grows where
  react := by
    intro w t e w' ts hl hp _ h
    have hts := machine_pending h hp
    rcases machine_docs h hp with hd | ⟨-, v, hs⟩
    · exact ⟨fun k => hd ▸ hl k, grows_of_docs hd, hts⟩
    · exact ⟨hs.lineage hl, hs.grows, hts⟩
  stable := fun _ _ _ _ hg hp => pending_grows hg hp

omit [DecidableEq κ] in
theorem init_holds (C : Client κ χ ν α φ) :
    Holds (fun w => ∀ k, C.Lineage k (w.docs k)) (Pending C)
      (init : Sys (World κ χ ν α φ) (Task χ ν α)) :=
  ⟨fun _ => .nil, by simp [init]⟩

/-- LINEAGE: whatever is called, lost, stale or late, every document was created once and then
    edited from version to version. -/
theorem lineage_of_runs (C : Client κ χ ν α φ) (h : Runs (machine C) free init s) (k : κ) :
    C.Lineage k (s.shared.docs k) :=
  (h.sound (machine_sound C) (init_holds C)).1 k

/-- Versions are never lost over a run. -/
theorem grows_of_runs (C : Client κ χ ν α φ) (h0 : Runs (machine C) free init s)
    (h : Runs (machine C) free s s') :
    Grows s.shared s'.shared :=
  h.along (machine_sound C) (fun _ _ => List.suffix_rfl)
    (fun _ _ _ huv hvw k => (huv k).trans (hvw k))
    (h0.sound (machine_sound C) (init_holds C))

/-- What a step does to the documents, in any run: nothing, or the service executes a request and
    adds one version of one document. -/
theorem docs_of_step (C : Client κ χ ν α φ) {l : Label (Event χ ν φ)}
    (h0 : Runs (machine C) free init s) (h : step (machine C) s l = some s') :
    s'.shared.docs = s.shared.docs ∨
      (∃ f, l.2 = .execute f) ∧ ∃ v, Stored C s.shared s'.shared v := by
  have hH := h0.sound (machine_sound C) (init_holds C)
  obtain ⟨t, rest, w, ts, -, hperm, hM, rfl⟩ := step_cases h
  refine machine_docs hM fun x hx => hH.2 x ?_
  exact hperm.mem_iff.mpr (List.mem_append_left _ (by simpa using hx))

/-! ### A call on its own -/

/-- A call that nobody interferes with: its answer, and the documents after it. -/
def Client.perform (C : Client κ χ ν α φ) (c : χ) (now : ν) (docs : κ → Option α) :
    Except φ (Bool × α) × (κ → Option α) :=
  match C.plan c now with
  | .error f => (.error f, docs)
  | .ok (some d) =>
    match docs (C.key c) with
    | none => (.ok (true, d), Function.update docs (C.key c) (some d))
    | some _ => (.error C.duplicate, docs)
  | .ok none =>
    match docs (C.key c) with
    | none => (.error C.absent, docs)
    | some d =>
      match C.edit c now d with
      | .error f => (.error f, docs)
      | .ok none => (.ok (false, d), docs)
      | .ok (some d') => (.ok (true, d'), Function.update docs (C.key c) (some d'))

end Truyn.Cas
