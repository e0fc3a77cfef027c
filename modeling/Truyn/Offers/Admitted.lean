import Truyn.Offers.Bounded

/-! offers:admitted | every call on the container, in every run

    Each program keeps the container within its bounds, wherever it stops and whatever it is not
    told. A `reserveOffer` that fails with a definite error has given its slot back, unless the offer
    exists (`Cleared`). From this, for any calls that run at once: `slots_admitted`. -/

namespace Truyn.Offers
open Ledger Ledger.Cosmos Programs

/-- A fault after which it is open what the service has done. -/
def Vague (e : Fault) : Prop := e.status = 503

/-- What call `n` comes to, where it is definite. -/
abbrev Settles (D : Deployment) (n : ℕ) {β : Type} (P : Except Fault β → LedgerStore → Prop)
    (p : LedgerAct β) (s : LedgerStore) : Prop := Definite (slots D) false n Vague P p s

variable {D : Deployment} {n : ℕ} {s t u : LedgerStore} {h : Host} {kind : Entity} {id : JsString}

/-! ### Requests -/

theorem settles_get {P : Except Fault (Option Document) → LedgerStore → Prop}
    (hinvalid : ∀ t, Env (slots D) n true s t → validId kind id = false →
      P (.error ⟨400, "invalid_lifecycle_id"⟩) t)
    (hnone : ∀ t u, Env (slots D) n true s t → Bounded D t →
      t.docs (D.partitionId kind id) = [] → Env (slots D) n true t u → Bounded D u → P (.ok none) u)
    (hsome : ∀ t v older u, Env (slots D) n true s t → Bounded D t →
      t.docs (D.partitionId kind id) = v :: older → v.doc.body.kind = kind →
      v.doc.logicalId = id → Env (slots D) n true t u → Bounded D u → P (.ok (some v.doc)) u) :
    Settles D n P (get D kind id) s := by
  unfold get
  split
  · next hv => exact Definite.throw (.inr fun t hst _ => hinvalid t hst (by simpa using hv))
  refine Definite.bind (Definite.get rfl ?_ ?_)
  · intro t u hst ht hd htu _
    exact Definite.pure fun x hux hx => hnone t x hst ht (hd rfl) (htu.trans hux) hx
  · intro t v older u hst ht _ hd htu _
    show Settles D n P (if v.doc.body.kind ≠ kind ∨ v.doc.logicalId ≠ id then
      Act.throw invalidResponse else pure (some v.doc)) u
    split
    · exact Definite.throw (.inl rfl)
    next hown =>
    simp only [ne_eq, not_or, not_not] at hown
    exact Definite.pure fun x hux hx =>
      hsome t v older x hst ht (hd rfl) hown.1 hown.2 (htu.trans hux) hx

/-- The loop, by what its callback does to the document `v` that it finds. -/
theorem settles_mutate {callback : Document → Except Fault (Option Body)}
    {P : Except Fault (Bool × Document) → LedgerStore → Prop}
    (hinvalid : ∀ t, Env (slots D) n true s t → validId kind id = false →
      P (.error ⟨400, "invalid_lifecycle_id"⟩) t)
    (habsent : ∀ t u, Env (slots D) n true s t → Bounded D t →
      t.docs (D.partitionId kind id) = [] → Env (slots D) n true t u →
      P (.error ⟨404, "lifecycle_not_found"⟩) u)
    (hfault : ∀ t e doc, Env (slots D) n true s t → callback doc = .error e →
      e.status = 503 ∨ P (.error e) t)
    (hseen : ∀ t v older u, Env (slots D) n true s t → Bounded D t →
      t.docs (D.partitionId kind id) = v :: older → v.doc.logicalId = id →
      callback v.doc = .ok none → Env (slots D) n true t u → Bounded D u → P (.ok (false, v.doc)) u)
    (hwrite : ∀ t v older body m, (slots D).may s t → Bounded D t →
      t.docs (D.partitionId kind id) = v :: older → v.doc.logicalId = id →
      callback v.doc = .ok (some body) →
      Bounded D (t.write n (D.partitionId kind id) ⟨v.doc.logicalId, m, body⟩) ∧
        (slots D).may t (t.write n (D.partitionId kind id) ⟨v.doc.logicalId, m, body⟩))
    (htrue : ∀ t v older body m u, Env (slots D) n true s t → Bounded D t →
      t.docs (D.partitionId kind id) = v :: older → v.doc.logicalId = id →
      callback v.doc = .ok (some body) →
      Env (slots D) n true (t.write n (D.partitionId kind id) ⟨v.doc.logicalId, m, body⟩) u →
      Bounded D u → P (.ok (true, ⟨v.doc.logicalId, m, body⟩)) u) :
    Settles D n P (mutate D h kind id callback) s := by
  unfold mutate
  split
  · next hv => exact Definite.throw (.inr fun t hst _ => hinvalid t hst (by simpa using hv))
  refine Definite.mutate ?_ ?_ ?_ ?_ ?_ ?_ ?_ ?_ _
  · exact (rfl : Vague unavailable)
  · exact (rfl : Vague unavailable)
  · exact (rfl : Vague ⟨503, "lifecycle_cas_contention"⟩)
  · exact fun t u hst ht hd htu _ => habsent t u hst ht (hd rfl) htu
  · intro t v older now e hst _ _ hf
    unfold update at hf
    split at hf
    · cases hf
      exact .inl rfl
    split at hf
    · next he =>
      cases hf
      exact hfault t e v.doc hst he
    · cases hf
    · split at hf
      · next hp =>
        cases hf
        refine .inl ?_
        unfold packed at hp
        split at hp <;> cases hp
        rfl
      · cases hf
  · intro t v older now u hst ht _ hd hf htu hu
    obtain ⟨-, hid, b, hb, hr⟩ := update_ok hf
    cases b with
    | none => exact hseen t v older u hst ht (hd rfl) hid hb htu hu
    | some body => cases hr
  · intro t v older now d hst ht hd hf
    obtain ⟨-, hid, b, hb, hr⟩ := update_ok hf
    cases b with
    | none => cases hr
    | some body =>
      cases hr
      exact hwrite t v older body _ hst ht hd hid hb
  · intro t v older now d u hst ht hd hf htu hu
    obtain ⟨-, hid, b, hb, hr⟩ := update_ok hf
    cases b with
    | none => cases hr
    | some body =>
      cases hr
      exact htrue t v older body _ u hst ht hd hid hb htu hu

variable {doc : Document} {e : Fault}

/-! ### Capacity -/

theorem validateCapacity_fault (h : validateCapacity D doc = .error e) : Vague e := by
  unfold validateCapacity at h
  split at h
  · split at h <;> cases h
    rfl
  · cases h
    rfl

theorem ticketUpdate_fault {ticket : Partition} (h : ticketUpdate D ticket doc = .error e) :
    e.status = 503 := by
  unfold ticketUpdate at h
  split at h
  · next he =>
    cases h
    exact validateCapacity_fault he
  split at h
  · cases h
  · split at h <;> cases h
    rfl

/-- A ticket that is granted is in the register, and nothing else was written. -/
theorem settles_reserveCreationCapacity :
    Settles D n (fun r t => r = .ok () ∧ Since (slots D) n [D.capacityKey] s t ∧
      (D.recordCapacity.isSome = true → Ticketed D t (D.partitionId kind id)))
      (reserveCreationCapacity D h kind id) s := by
  unfold reserveCreationCapacity
  split
  · next hcap =>
    refine Definite.pure fun t hst _ => ⟨rfl, hst.since _, fun hsome => ?_⟩
    rw [Option.isNone_iff_eq_none.mp hcap] at hsome
    cases hsome
  have hmutate : Settles D n (fun r t => ∃ x, r = .ok x ∧ Since (slots D) n [D.capacityKey] s t ∧
      Ticketed D t (D.partitionId kind id))
      (Act.catching (mutate D h .capacity capacityId (ticketUpdate D (D.partitionId kind id)))
        fun e => Act.throw (if e.status = 404 then ⟨503, "lifecycle_capacity_not_initialized"⟩
          else e)) s := by
    refine Definite.catching (fun e he => ⟨e, he, ?_⟩) (settles_mutate ?_ ?_ ?_ ?_ ?_ ?_)
    · rw [if_neg (by rw [show e.status = 503 from he]; decide)]
    · exact fun _ _ hv => absurd hv (by decide)
    · exact fun _ _ _ _ _ _ => Definite.throw (.inl rfl)
    · exact fun _ _ _ _ he => .inl (ticketUpdate_fault he)
    · intro t v older u hst _ hd _ hcb htu _
      obtain ⟨r, hr, ⟨-, hmem⟩ | ⟨_, hnone, -⟩⟩ := ticketUpdate_ok hcb
      · refine ⟨_, rfl, (hst.trans htu).since _, ?_⟩
        have hticket : Ticketed D t (D.partitionId kind id) :=
          ⟨v, by rw [show D.capacityKey = _ from rfl, Deployment.capacityKey, hd]; simp, r, hr, hmem⟩
        exact hticket.grows htu.may.1
      · cases hnone
    · exact fun t v older body m _ ht hd hid hcb => ticket_write ht hd hid hcb
    · intro t v older body m u hst ht hd hid hcb htu _
      obtain ⟨hinv, hmay⟩ := ticket_write (n := n) (m := m) ht hd hid hcb
      refine ⟨_, rfl, ?_, ?_⟩
      · exact (((hst.since []).trans (since_write hmay)).trans (htu.since [])).mono (by simp)
      obtain ⟨r, hr, ⟨hnone, -⟩ | ⟨r', hbody, htickets, -⟩⟩ := ticketUpdate_ok hcb
      · cases hnone
      cases hbody
      refine Ticketed.grows ⟨⟨some n, v.doc.logicalId, m, .capacity r'⟩, ?_, r', rfl, ?_⟩ htu.may.1
      · rw [Deployment.capacityKey, Store.write_docs]
        exact List.mem_cons_self
      · rw [htickets]
        simp
  refine Definite.bind (Definite.mono hmutate ?_)
  rintro _ t _ ⟨x, rfl, hsince, hticket⟩
  refine Definite.bind (Definite.check fun u htu _ hd => ?_)
  cases hv : validateCapacity D x.2 with
  | error e => exact absurd (validateCapacity_fault hv) (hd e hv)
  | ok saved =>
    show Settles D n _ (if D.partitionId kind id ∉ saved.tickets then
      Act.throw ⟨503, "lifecycle_capacity_commit_unverified"⟩ else pure ()) u
    split
    · exact Definite.throw (.inl rfl)
    · refine Definite.pure fun y huy _ => ⟨rfl, ?_, fun _ => ?_⟩
      · exact (hsince.trans ((htu.trans huy).since [])).mono (by simp)
      · exact hticket.grows (htu.trans huy).may.1

/-- What `create` comes to. -/
def Created (D : Deployment) (n : ℕ) (s : LedgerStore) (k : Partition) (d : Document) :
    Except Fault Document → LedgerStore → Prop
  | .ok _, t => Since (slots D) n [D.capacityKey, k] s t ∧ (∃ v ∈ t.docs k, v.doc = d) ∧
      ∀ v ∈ t.written n k, v ∈ s.written n k ∨ v.doc = d
  | .error e, t => e = duplicate k.kind ∧ Since (slots D) n [D.capacityKey] s t ∧ t.docs k ≠ []

variable {body : Body} {v : Version Document} {d : Option Directory}

theorem settles_create (hkind : body.kind ≠ .capacity) (hvalid : Valid D ⟨id, 1, body⟩)
    (hslot : ∀ t, (slots D).may s t → t.docs (D.partitionId body.kind id) = [] →
      ∀ o, body = .offer o → o.directory.isSome = true → o.revoked = false →
      Holds D t o.owner ⟨id, o.fingerprint⟩) :
    Settles D n (Created D n s (D.partitionId body.kind id) ⟨id, 1, body⟩) (create D h id body) s := by
  have hkey : D.partitionId body.kind id ∉ [D.capacityKey] := fun hmem =>
    hkind (congrArg Partition.kind (List.mem_singleton.mp hmem))
  unfold create
  refine Definite.bind (Definite.check fun a hsa _ hd => ?_)
  cases hp : packed h ⟨id, 1, body⟩ with
  | error e =>
    refine absurd ?_ (hd e hp)
    unfold packed at hp
    split at hp <;> cases hp
    rfl
  | ok doc =>
    obtain rfl := packed_ok hp
    refine Definite.bind (Definite.mono settles_reserveCreationCapacity ?_)
    rintro _ t _ ⟨rfl, hat, hticket⟩
    have hst : Since (slots D) n [D.capacityKey] s t := ((hsa.since []).trans hat).mono (by simp)
    have hwritten := hst.written _ hkey
    refine Definite.bind (Definite.create rfl ?_ ?_ ?_)
    · intro x htx hx hnone
      exact create_write hx n hnone hvalid (fun hcap => (hticket hcap).grows htx.1)
        (hslot x ((slots D).trans hst.may htx) hnone)
    · intro x y htx hx hnone hxy _
      obtain ⟨-, hmay⟩ := create_write hx n hnone hvalid
        (fun hcap => (hticket hcap).grows htx.may.1)
        (hslot x ((slots D).trans hst.may htx.may) hnone)
      refine Definite.pure fun z hyz _ => ⟨?_, ?_, fun v hv => ?_⟩
      · have hall := ((hst.trans (htx.since [])).trans (since_write hmay)).trans
          ((hxy.trans hyz).since [])
        exact hall.mono (by simp)
      · refine ⟨⟨some n, id, 1, body⟩, ((hxy.trans hyz).may.1 _).subset ?_, rfl⟩
        rw [Store.write_docs]
        exact List.mem_cons_self
      · rw [(hxy.trans hyz).written rfl, Store.written, Store.write_docs,
          List.filter_cons_of_pos (by simp)] at hv
        rcases List.mem_cons.mp hv with rfl | hv
        · exact .inr rfl
        · left
          rw [← hwritten, ← htx.written rfl]
          exact hv
    · intro x y htx _ hne hxy _
      refine Definite.throw (.inr fun z hyz _ => ⟨rfl, ?_, fun hz => hne ?_⟩)
      · exact (hst.trans ((htx.trans (hxy.trans hyz)).since [])).mono (by simp)
      · have hsuffix := (hxy.trans hyz).may.1 (D.partitionId body.kind id)
        rw [hz] at hsuffix
        exact List.suffix_nil.mp hsuffix

/-! ### Slots -/

/-- Nothing that call `n` has written under `k` has the slot. -/
def Unclaimed (n : ℕ) (k : Partition) (slot : Slot) (s : LedgerStore) : Prop :=
  ∀ v ∈ s.written n k, slot ∉ v.doc.slots

/-- A version without the slot's id is newer than all that call `n` has written with the slot. -/
def Cleared (n : ℕ) (k : Partition) (slot : Slot) (s : LedgerStore) : Prop :=
  ∃ newer older, s.docs k = newer ++ older ∧
    (∀ v ∈ newer, v.writer = some n → slot ∉ v.doc.slots) ∧
    ∀ v ∈ older.head?, slot.id ∉ v.doc.slots.map Slot.id

/-- The offer exists. -/
def Exists (D : Deployment) (c : OfferReservation) (s : LedgerStore) : Prop :=
  ∃ v ∈ s.docs (D.partitionId .offer c.id), v.doc.logicalId = c.id ∧ ∃ o, v.doc.body = .offer o ∧
    o.owner = c.owner ∧ o.fingerprint = c.fingerprint

variable {k : Partition} {slot : Slot} {owner : JsString} {c : OfferReservation}

theorem Unclaimed.of_eq (hu : Unclaimed n k slot s) (h : t.written n k = s.written n k) :
    Unclaimed n k slot t := by
  intro v hv
  rw [h] at hv
  exact hu v hv

theorem Unclaimed.cleared (hu : Unclaimed n k slot s) : Cleared n k slot s := by
  refine ⟨s.docs k, [], (List.append_nil _).symm, fun v hv hw => ?_, fun v hv => by cases hv⟩
  exact hu v (List.mem_filter.mpr ⟨hv, decide_eq_true hw⟩)

/-- A slot stays cleared: whoever takes it again is another call. -/
theorem Cleared.env (hc : Cleared n k slot s) (hst : Env (slots D) n true s t) :
    Cleared n k slot t := by
  obtain ⟨newer, older, hdocs, hnewer, holder⟩ := hc
  obtain ⟨ext, hext⟩ := hst.may.1 k
  have hnone : ext.filter (fun v => v.writer = some n) = [] := by
    have hwritten := hst.written rfl k
    rw [Store.written, Store.written, ← hext, List.filter_append] at hwritten
    exact List.append_left_eq_self.mp hwritten
  refine ⟨ext ++ newer, older, ?_, fun v hv hw => ?_, holder⟩
  · rw [← hext, hdocs, List.append_assoc]
  · rcases List.mem_append.mp hv with hv | hv
    · exact absurd (decide_eq_true hw) (List.filter_eq_nil_iff.mp hnone v hv)
    · exact hnewer v hv hw

theorem Exists.grows (h : Exists D c s) (hst : ∀ k, s.docs k <:+ t.docs k) : Exists D c t := by
  obtain ⟨v, hv, hrest⟩ := h
  exact ⟨v, (hst _).subset hv, hrest⟩

/-- What a write of the newest version without the slot's id leaves. -/
theorem cleared_newest {older : List (Version Document)} (hd : s.docs k = v :: older)
    (hv : slot.id ∉ v.doc.slots.map Slot.id) : Cleared n k slot s := by
  refine ⟨[], v :: older, hd, fun u hu => (by cases hu), fun u hu => ?_⟩
  cases hu
  exact hv

theorem cleared_absent (hd : s.docs k = []) : Cleared n k slot s :=
  ⟨[], [], hd, fun u hu => (by cases hu), fun u hu => (by cases hu)⟩

theorem unlessConflict_duplicate (kind : Entity) : unlessConflict (duplicate kind) = pure () := by
  cases kind <;> rfl

theorem settles_createOfferOwner (hnew : Unclaimed n (D.partitionId .offerOwner owner) slot s) :
    Settles D n (fun _ t => Since (slots D) n [D.capacityKey, D.partitionId .offerOwner owner] s t ∧
      Unclaimed n (D.partitionId .offerOwner owner) slot t) (createOfferOwner D h owner) s := by
  have hkeep : ∀ t, Env (slots D) n true s t →
      Since (slots D) n [D.capacityKey, D.partitionId .offerOwner owner] s t ∧
        Unclaimed n (D.partitionId .offerOwner owner) slot t :=
    fun t hst => ⟨hst.since _, hnew.of_eq (hst.written rfl _)⟩
  unfold createOfferOwner
  refine Definite.bind (settles_get ?_ ?_ ?_)
  · exact fun t hst _ => hkeep t hst
  · intro t u hst _ _ htu _
    have hsu := hst.trans htu
    refine Definite.catching (fun e he => ⟨e, he, ?_⟩) (Definite.bind (Definite.mono
      (settles_create (fun hk => by cases hk) ⟨rfl, Nat.zero_le _, List.nodup_nil⟩
        fun _ _ _ o ho => by cases ho) ?_))
    · have hne : e.status ≠ 409 := by
        rw [show e.status = 503 from he]
        decide
      exact if_pos hne
    · rintro (e | doc) x _ hx
      · obtain ⟨rfl, hux, -⟩ := hx
        simp only [Then, Caught, unlessConflict_duplicate]
        refine Definite.pure fun y hxy _ => ?_
        have hall := ((hsu.since []).trans hux).trans (hxy.since [])
        refine ⟨hall.mono (by simp), (hkeep s (.refl s)).2.of_eq ?_⟩
        exact hall.written _ fun hmem => by simp [Deployment.capacityKey, Deployment.partitionId] at hmem
      · obtain ⟨hux, -, hwritten⟩ := hx
        refine Definite.pure fun y hxy _ => ⟨?_, fun v hv => ?_⟩
        · exact (((hsu.since []).trans hux).trans (hxy.since [])).mono (by simp)
        · rw [hxy.written rfl] at hv
          rcases hwritten v hv with hv | hv
          · exact (hkeep u hsu).2 v hv
          · rw [hv]
            exact List.not_mem_nil
  · exact fun t v older u hst _ _ _ _ htu _ => Definite.pure fun x hux _ =>
      hkeep x ((hst.trans htu).trans hux)

theorem validateOfferOwner_fault (h : validateOfferOwner doc owner = .error e) :
    e = indexInvalid := by
  unfold validateOfferOwner at h
  split at h
  · split at h <;> cases h
    rfl
  · cases h
    rfl

theorem releaseUpdate_fault (h : releaseUpdate owner slot doc = .error e) : e.status = 503 := by
  unfold releaseUpdate at h
  split at h
  · next he =>
    cases h
    rw [validateOfferOwner_fault he]
    rfl
  split at h
  · cases h
  · split at h <;> cases h
    rfl

/-- A slot that is claimed is there, until it is void; a claim that fails has written none. -/
theorem settles_claimOfferSlot
    (hnew : Unclaimed n (D.partitionId .offerOwner c.owner) c.slot s) :
    Settles D n (fun r t =>
      Since (slots D) n [D.capacityKey, D.partitionId .offerOwner c.owner] s t ∧
      (r = .ok () → Holds D t c.owner c.slot ∨ Voided D t c.owner c.slot) ∧
      (∀ e, r = .error e → Unclaimed n (D.partitionId .offerOwner c.owner) c.slot t))
      (claimOfferSlot D h c) s := by
  unfold claimOfferSlot
  refine Definite.bind (Definite.mono (settles_createOfferOwner hnew) ?_)
  rintro (e | x) t _ ⟨hst, hun⟩
  · exact ⟨hst, fun h => (by cases h), fun _ _ => hun⟩
  have hfail : ∀ u e, Env (slots D) n true t u →
      Since (slots D) n [D.capacityKey, D.partitionId .offerOwner c.owner] s u ∧
      ((.error e : Except Fault Unit) = .ok () →
        Holds D u c.owner c.slot ∨ Voided D u c.owner c.slot) ∧
      (∀ e', (.error e : Except Fault Unit) = .error e' →
        Unclaimed n (D.partitionId .offerOwner c.owner) c.slot u) := by
    intro u e htu
    refine ⟨(hst.trans (htu.since [])).mono (by simp), fun h => (by cases h), fun _ _ => ?_⟩
    exact hun.of_eq (htu.written rfl _)
  refine Definite.bind (settles_mutate ?_ ?_ ?_ ?_ ?_ ?_)
  · exact fun u htu _ => hfail u _ htu
  · exact fun u x htu _ _ hux => hfail x _ (htu.trans hux)
  · exact fun u e _ htu _ => .inr (hfail u e htu)
  · intro u v older x htu _ hd hid hcb hux _
    obtain ⟨i, hi, -, ⟨-, hmem⟩ | ⟨hnone, -⟩⟩ := claimUpdate_ok hcb
    · have hholds : Holds D u c.owner c.slot := by
        refine ⟨v, by rw [hd]; rfl, hid, ?_⟩
        rw [Document.slots, hi]
        exact hmem
      refine Definite.pure fun y hxy _ => ⟨?_, fun _ => ?_, fun _ h => by cases h⟩
      · exact (hst.trans ((htu.trans (hux.trans hxy)).since [])).mono (by simp)
      · exact (hux.trans hxy).may.2 _ _ hholds
    · cases hnone
  · exact fun u v older body m _ hu hd hid hcb => claim_write hu hd hid hcb
  · intro u v older body m x htu hu hd hid hcb hux _
    obtain ⟨-, hmay⟩ := claim_write (n := n) (m := m) hu hd hid hcb
    obtain ⟨i, hi, -, ⟨hnone, -⟩ | ⟨hbody, -⟩⟩ := claimUpdate_ok hcb
    · cases hnone
    cases hbody
    have hholds : Holds D (u.write n (D.partitionId .offerOwner c.owner)
        ⟨v.doc.logicalId, m, .offerOwner { i with offerSlots := i.offerSlots ++ [c.slot] }⟩)
        c.owner c.slot := by
      refine ⟨⟨some n, v.doc.logicalId, m, .offerOwner { i with
        offerSlots := i.offerSlots ++ [c.slot] }⟩, by rw [Store.write_docs]; rfl, hid, ?_⟩
      exact List.mem_append_right _ (List.mem_singleton.mpr rfl)
    refine Definite.pure fun y hxy _ => ⟨?_, fun _ => ?_, fun _ h => by cases h⟩
    · exact (((hst.trans (htu.since [])).trans (since_write hmay)).trans
        ((hux.trans hxy).since [])).mono (by simp)
    · exact (hux.trans hxy).may.2 _ _ hholds

/-- A void slot is released. -/
theorem settles_release (hvoid : Voided D s owner slot) :
    Settles D n (fun _ t => nonempty owner = true →
      Cleared n (D.partitionId .offerOwner owner) slot t)
      (mutate D h .offerOwner owner (releaseUpdate owner slot)) s := by
  refine settles_mutate ?_ ?_ ?_ ?_ ?_ ?_
  · intro t _ hv howner
    rw [show validId .offerOwner owner = nonempty owner from rfl, howner] at hv
    cases hv
  · exact fun t u _ _ hd htu _ => (cleared_absent hd).env htu
  · exact fun _ _ _ _ he => .inl (releaseUpdate_fault he)
  · intro t v older u _ _ hd _ hcb htu _ _
    obtain ⟨i, hi, -, ⟨-, hmem⟩ | ⟨hnone, -⟩⟩ := releaseUpdate_ok hcb
    · refine (cleared_newest hd ?_).env htu
      rw [Document.slots, hi]
      exact hmem
    · cases hnone
  · exact fun t v older body m hst ht hd hid hcb =>
      release_write ht (hvoid.grows hst.1) hd hid hcb
  · intro t v older body m u _ _ _ _ hcb htu _ _
    obtain ⟨i, hi, -, ⟨hnone, -⟩ | ⟨hbody, -⟩⟩ := releaseUpdate_ok hcb
    · cases hnone
    cases hbody
    refine (cleared_newest (v := ⟨some n, _⟩) (Store.write_docs _ _ _ _) ?_).env htu
    intro hmem
    obtain ⟨x, hx, hxid⟩ := List.mem_map.mp hmem
    exact of_decide_eq_true (List.mem_filter.mp hx).2 hxid

theorem settles_releaseOfferClaim (hvoid : Voided D s c.owner c.slot)
    (howner : nonempty c.owner = true) :
    Settles D n (fun _ t => Cleared n (D.partitionId .offerOwner c.owner) c.slot t)
      (releaseOfferClaim D h c) s := by
  unfold releaseOfferClaim
  refine Definite.bind (settles_get ?_ ?_ ?_)
  · intro t _ hv
    rw [show validId .offerOwner c.owner = nonempty c.owner from rfl, howner] at hv
    cases hv
  · exact fun t u _ _ hd htu _ => Definite.pure fun x hux _ =>
      (cleared_absent hd).env (htu.trans hux)
  · intro t v older u hst _ _ _ _ htu _
    refine Definite.bind (Definite.mono
      (settles_release (hvoid.grows (hst.trans htu).may.1)) ?_)
    rintro (e | x) y _ hy
    · exact hy howner
    · exact Definite.pure fun z hyz _ => (hy howner).env hyz

/-! ### The ledger's calls -/

/-- The error of a `reserveOffer` leaves no slot, or the offer exists. -/
def GivenBack (D : Deployment) (n : ℕ) (c : OfferReservation) {β : Type} (r : Except Fault β)
    (t : LedgerStore) : Prop :=
  ∀ e, r = .error e →
    Cleared n (D.partitionId .offerOwner c.owner) c.slot t ∨ Exists D c t

theorem GivenBack.env {β : Type} {r : Except Fault β} (hr : GivenBack D n c r s)
    (hst : Env (slots D) n true s t) : GivenBack D n c r t := by
  intro e he
  rcases hr e he with hc | hx
  · exact .inl (hc.env hst)
  · exact .inr (hx.grows hst.may.1)

/-- Whoever fails before it has claimed its slot. -/
theorem Unclaimed.givenBack {β : Type} {r : Except Fault β}
    (hu : Unclaimed n (D.partitionId .offerOwner c.owner) c.slot s)
    (hst : Env (slots D) n true s t) : GivenBack D n c r t :=
  fun _ _ => .inl (hu.cleared.env hst)

theorem settles_prepareOffer (hnew : Unclaimed n (D.partitionId .offerOwner c.owner) c.slot s) :
    Settles D n (fun r t => GivenBack D n c r t ∧ (r = .ok () →
      (d.isSome = true → Holds D t c.owner c.slot ∨ Voided D t c.owner c.slot) ∧
      (d.isNone = true → Unclaimed n (D.partitionId .offerOwner c.owner) c.slot t)))
      (prepareOffer D h c d) s := by
  have hfail : ∀ t e, Env (slots D) n true s t →
      GivenBack D n c (.error e : Except Fault Unit) t ∧ ((.error e : Except Fault Unit) = .ok () →
        (d.isSome = true → Holds D t c.owner c.slot ∨ Voided D t c.owner c.slot) ∧
        (d.isNone = true → Unclaimed n (D.partitionId .offerOwner c.owner) c.slot t)) :=
    fun t e hst => ⟨hnew.givenBack hst, fun h => by cases h⟩
  unfold prepareOffer
  split
  · next hd =>
    refine Definite.pure fun t hst _ => ⟨fun e h => (by cases h), fun _ => ⟨fun hs => ?_, fun _ => ?_⟩⟩
    · rw [Option.isNone_iff_eq_none.mp hd] at hs
      cases hs
    · exact hnew.of_eq (hst.written rfl _)
  next hd =>
  refine Definite.bind (Definite.check fun t hst _ _ => ?_)
  cases packed h ⟨c.id, 1, c.offer d⟩ with
  | error e => exact hfail t e hst
  | ok doc =>
    refine Definite.bind (settles_get ?_ ?_ ?_)
    · exact fun u htu _ => hfail u _ (hst.trans htu)
    · intro u x htu _ _ hux _
      have hsx := hst.trans (htu.trans hux)
      refine Definite.mono (settles_claimOfferSlot (hnew.of_eq (hsx.written rfl _))) ?_
      rintro (e | ⟨⟩) y _ ⟨hxy, hok, herror⟩
      · exact ⟨fun e' he => .inl (herror e' he).cleared, fun h => by cases h⟩
      · exact ⟨fun e' he => (by cases he), fun _ => ⟨fun _ => hok rfl, fun hn => absurd hn hd⟩⟩
    · intro u v older x htu _ _ _ _ hux _
      exact Definite.throw (.inr fun y hxy _ => hfail y _ ((hst.trans (htu.trans hux)).trans hxy))

/-- The creation has failed because the id is taken. -/
theorem settles_abandonOffer (hid : nonempty c.id = true) (howner : nonempty c.owner = true)
    (htaken : s.docs (D.partitionId .offer c.id) ≠ [])
    (hnew : d.isNone = true → Unclaimed n (D.partitionId .offerOwner c.owner) c.slot s) :
    Settles D n (GivenBack D n c) (abandonOffer D h c d (duplicate .offer)) s := by
  unfold abandonOffer
  split
  · next hd =>
    have hd' : d.isNone = true := by simpa using hd
    exact Definite.throw (.inr fun t hst _ => (hnew hd').givenBack hst)
  refine Definite.bind (settles_get ?_ ?_ ?_)
  · intro t _ hv
    rw [show validId .offer c.id = nonempty c.id from rfl, hid] at hv
    cases hv
  · intro t u hst _ hd _ _
    have hsuffix := hst.may.1 (D.partitionId .offer c.id)
    rw [hd] at hsuffix
    exact absurd (List.suffix_nil.mp hsuffix) htaken
  · intro t v older u hst ht hd hkind hlog htu _
    have hv : v ∈ t.docs (D.partitionId .offer c.id) := hd ▸ List.mem_cons_self
    obtain ⟨o, ho⟩ : ∃ o, v.doc.body = .offer o := by
      cases hbody : v.doc.body with
      | offer o => exact ⟨o, rfl⟩
      | _ =>
        rw [hbody] at hkind
        cases hkind
    show Settles D n (GivenBack D n c) (if c.differs v.doc then do
      releaseOfferClaim D h c
      Act.throw (duplicate .offer) else Act.throw (duplicate .offer)) u
    split
    · next hdiff =>
      rw [OfferReservation.differs, ho] at hdiff
      have hvoid : Voided D t c.owner c.slot := ⟨v, hv, o, ho, .inr (of_decide_eq_true hdiff)⟩
      refine Definite.bind (Definite.mono
        (settles_releaseOfferClaim (hvoid.grows htu.may.1) howner) ?_)
      rintro (e | x) y _ hy
      · exact fun _ _ => .inl hy
      · exact Definite.throw (.inr fun z hyz _ => fun _ _ => .inl (hy.env hyz))
    · next hsame =>
      rw [OfferReservation.differs, ho] at hsame
      simp only [ne_eq, Bool.decide_or, decide_not, Bool.or_eq_true, Bool.not_eq_true',
        decide_eq_false_iff_not, not_or, not_not] at hsame
      refine Definite.throw (.inr fun x hux _ => fun _ _ => .inr ?_)
      exact Exists.grows ⟨v, hv, hlog, o, ho, hsame.1, hsame.2⟩ (htu.trans hux).may.1

/-- RESERVE: where it fails with a definite error it leaves no slot, or the offer exists. -/
theorem settles_reserveOffer
    (hnew : Unclaimed n (D.partitionId .offerOwner c.owner) c.slot s) :
    Settles D n (GivenBack D n c) (reserveOffer D h c) s := by
  unfold reserveOffer
  split
  · exact Definite.throw (.inr fun t hst _ => hnew.givenBack hst)
  next hall =>
  have hids : nonempty c.id = true ∧ nonempty c.owner = true := by
    simp only [Bool.not_eq_true', Bool.not_eq_false, List.all_cons, Bool.and_eq_true] at hall
    exact ⟨hall.1, hall.2.1⟩
  refine Definite.bind (Definite.check fun t hst _ _ => ?_)
  cases projection D c with
  | error e => exact hnew.givenBack hst
  | ok d =>
    refine Definite.bind (Definite.mono (settles_prepareOffer (hnew.of_eq (hst.written rfl _))) ?_)
    rintro (e | ⟨⟩) u _ ⟨hback, hok⟩
    · exact fun e' he => hback e' (by cases he; rfl)
    obtain ⟨hslot, hun⟩ := hok rfl
    refine Definite.catching (fun e he => ⟨e, he, if_pos (.inr ?_)⟩) (Definite.mono
      (settles_create (fun hk => by cases hk) trivial ?_) ?_)
    · rintro x hux hnone o ho hdir -
      cases ho
      have hfree : ¬Voided D x c.owner c.slot := by
        rintro ⟨v, hv, -⟩
        have hempty : x.docs (D.partitionId .offer c.id) = [] := hnone
        rw [show c.slot.id = c.id from rfl, hempty] at hv
        cases hv
      rcases hslot hdir with hh | hv
      · exact (hux.2 _ _ hh).resolve_right hfree
      · exact absurd (hv.grows hux.1) hfree
    · rintro (e | doc) x _ hx
      · obtain ⟨rfl, hux, htaken⟩ := hx
        refine settles_abandonOffer hids.1 hids.2 htaken fun hn => (hun hn).of_eq (hux.written _ ?_)
        simp [Deployment.capacityKey, Deployment.partitionId]
      · exact fun e he => by cases he
    · rintro rfl
      exact absurd he (show ¬(409 = 503) by decide)

/-- A call of which nothing is asked but that it keeps the container within its bounds. -/
abbrev Keeps (D : Deployment) (n : ℕ) {β : Type} (p : LedgerAct β) (s : LedgerStore) : Prop :=
  Settles D n (fun _ _ => True) p s

theorem keeps_revokeOffer {id owner : JsString} : Keeps D n (revokeOffer D h id owner) s := by
  have hrevoke : Settles D n (fun r t => ∀ x, r = .ok x → ∀ o, x.2.body = .offer o →
      Voided D t o.owner ⟨x.2.logicalId, o.fingerprint⟩)
      (mutate D h .offer id (revokeUpdate owner)) s := by
    refine settles_mutate ?_ ?_ ?_ ?_ ?_ ?_
    · exact fun _ _ _ x hx => by cases hx
    · exact fun _ _ _ _ _ _ x hx => by cases hx
    · exact fun _ _ _ _ _ => .inr fun x hx => by cases hx
    · rintro t v older u _ _ hd hid hcb htu _ _ ⟨⟩ o ho
      obtain ⟨o', ho', ⟨-, hr⟩ | hbody⟩ := revokeUpdate_ok hcb
      · have hvoid : Voided D t o.owner ⟨v.doc.logicalId, o.fingerprint⟩ := by
          rw [ho'] at ho
          cases ho
          refine ⟨v, ?_, o, ho', .inl hr⟩
          rw [show (⟨v.doc.logicalId, o.fingerprint⟩ : Slot).id = id from hid, hd]
          exact List.mem_cons_self
        exact hvoid.grows htu.may.1
      · cases hbody
    · exact fun t v older body m _ ht hd hid hcb => revoke_write ht hd hid hcb
    · rintro t v older body m u _ _ _ hid hcb htu _ _ ⟨⟩ o ho
      obtain ⟨o', -, ⟨hnone, -⟩ | hbody⟩ := revokeUpdate_ok hcb
      · cases hnone
      cases hbody
      cases ho
      refine Voided.grows ⟨⟨some n, v.doc.logicalId, m, .offer { o' with revoked := true }⟩, ?_, _,
        rfl, .inl rfl⟩ htu.may.1
      rw [hid, Store.write_docs]
      exact List.mem_cons_self
  unfold revokeOffer
  refine Definite.bind (Definite.mono hrevoke ?_)
  rintro (e | x) t _ hx
  · trivial
  have hrelease : Keeps D n (releaseRevokedOfferSlot D h x.2) t := by
    unfold releaseRevokedOfferSlot
    split
    · next o ho =>
      split
      · exact Definite.pure fun _ _ _ => trivial
      refine Definite.bind (Definite.mono (settles_release (hx x rfl o ho)) ?_)
      rintro (e | y) u _ -
      · trivial
      · exact Definite.pure fun _ _ _ => trivial
    · exact Definite.pure fun _ _ _ => trivial
  refine Definite.bind (Definite.mono hrelease ?_)
  rintro (e | y) u _ -
  · trivial
  · exact Definite.pure fun _ _ _ => trivial

theorem keeps_create (hkind : body.kind ≠ .capacity) (hvalid : Valid D ⟨id, 1, body⟩)
    (hoffer : ∀ o, body ≠ .offer o) : Settles D n (fun r _ => ∀ e, r = .error e → e.status = 409)
      (create D h id body) s := by
  refine Definite.mono (settles_create hkind hvalid fun _ _ _ o ho => absurd ho (hoffer o)) ?_
  rintro (e | doc) t _ hx e' he
  · cases he
    rw [hx.1]
    cases body.kind <;> rfl
  · cases he

theorem keeps_reserveNeed {c : Reservation} : Keeps D n (reserveNeed D h c) s := by
  unfold reserveNeed
  split
  · exact Definite.throw (.inr fun _ _ _ => trivial)
  split
  · exact Definite.throw (.inr fun _ _ _ => trivial)
  refine Definite.bind (Definite.ask fun now t _ _ => ?_)
  refine Definite.bind (Definite.check fun u _ _ _ => ?_)
  unfold Then
  split
  · exact Definite.mono (keeps_create (fun hk => by cases hk) trivial fun _ ho => by cases ho)
      fun _ _ _ _ => trivial
  · trivial

theorem keeps_beginEffect {c : Intent} : Keeps D n (beginEffect D h c) s := by
  unfold beginEffect
  split
  · exact Definite.throw (.inr fun _ _ _ => trivial)
  refine Definite.bind (Definite.ask fun now t _ _ => ?_)
  refine Definite.catching (fun e he => ⟨e, he, if_pos ?_⟩) (Definite.bind (Definite.mono
    (keeps_create (fun hk => by cases hk) trivial fun _ ho => by cases ho) ?_))
  · rw [show e.status = 503 from he]
    decide
  · rintro (e | doc) u _ hx
    · have hstatus := hx e rfl
      show Settles D n _ (if e.status ≠ 409 then Act.throw e else _) u
      rw [if_neg (not_not.mpr hstatus)]
      refine Definite.bind (settles_get ?_ ?_ ?_)
      · exact fun _ _ _ => trivial
      · exact fun _ _ _ _ _ _ _ => Definite.throw (.inr fun _ _ _ => trivial)
      · intro x v older y _ _ _ _ _ _ _
        show Settles D n _ (if sameEffect c v.doc then pure false else Act.throw identityConflict) y
        split
        · exact Definite.pure fun _ _ _ => trivial
        · exact Definite.throw (.inr fun _ _ _ => trivial)
    · exact Definite.pure fun _ _ _ => trivial

/-! ### Every run -/

/-- What call `n` comes to: a definite error of `reserveOffer` leaves no slot. -/
def Outcome (D : Deployment) (n : ℕ) (c : LedgerRequest) (b : Bool) (r : Except Fault LedgerReply)
    (t : LedgerStore) : Prop :=
  match c with
  | .reserveOffer _ c => (∀ e, r = .error e → ¬Vague e) → b = true ∧ GivenBack D n c r t
  | _ => True

theorem verified_program (D : Deployment) : Verified (slots D) false (program D) (Outcome D) := by
  intro n c s _ hfresh
  have hkeeps : ∀ {β : Type} {p : LedgerAct β} {f : β → LedgerAct LedgerReply},
      Keeps D n p s → (∀ x t, Keeps D n (f x) t) →
      Programs.Safe (slots D) false n (fun _ _ _ => True) (p >>= f : LedgerAct LedgerReply)
        true s := by
    intro β p f hp hf
    have hbind : Keeps D n (p >>= f) s := by
      refine Definite.bind (Definite.mono hp ?_)
      rintro (e | x) t _ -
      · trivial
      · exact hf x t
    exact Safe.mono hbind fun _ _ _ _ _ => trivial
  cases c with
  | reserveNeed h c =>
    exact hkeeps keeps_reserveNeed fun _ _ => Definite.pure fun _ _ _ => trivial
  | beginEffect h c =>
    exact hkeeps keeps_beginEffect fun _ _ => Definite.pure fun _ _ _ => trivial
  | revokeOffer h id owner =>
    exact hkeeps keeps_revokeOffer fun _ _ => Definite.pure fun _ _ _ => trivial
  | reserveOffer h c =>
    refine Definite.bind (Definite.mono (settles_reserveOffer fun v hv => ?_) ?_)
    · rw [hfresh.written] at hv
      cases hv
    · rintro (e | x) t _ hx
      · exact fun e' he => hx e' (by cases he; rfl)
      · exact Definite.pure fun u _ _ e he => by cases he

theorem Outcome.env {c : LedgerRequest} {b : Bool} {r : Except Fault LedgerReply}
    (ho : Outcome D n c b r s) (hst : Env (slots D) n b s t) : Outcome D n c b r t := by
  cases c with
  | reserveOffer h c =>
    intro hd
    obtain ⟨rfl, hback⟩ := ho hd
    exact ⟨rfl, hback.env hst⟩
  | _ => trivial

/-- The register as it is installed. -/
def createLifecycleCapacityDocument (D : Deployment) (recordCapacity : ℕ) : Document :=
  ⟨capacityId, 1, .capacity ⟨1, D.hash D.base, recordCapacity, [], 0⟩⟩

/-- A container of which nothing was used yet, with or without a register. -/
def installed (D : Deployment) : Option ℕ → LedgerStore
  | none => ⟨fun _ => [], []⟩
  | some recordCapacity => ⟨fun k =>
      if k = D.capacityKey then [⟨none, createLifecycleCapacityDocument D recordCapacity⟩] else [], []⟩

theorem mem_installed {seed : Option ℕ} (hv : v ∈ (installed D seed).docs k) : k = D.capacityKey ∧
      ∃ recordCapacity, v = ⟨none, createLifecycleCapacityDocument D recordCapacity⟩ := by
  cases seed with
  | none => cases hv
  | some recordCapacity =>
    have hv' : v ∈ if k = D.capacityKey then
      [(⟨none, createLifecycleCapacityDocument D recordCapacity⟩ : Version Document)] else [] := hv
    split at hv'
    · next hk => exact ⟨hk, recordCapacity, List.mem_singleton.mp hv'⟩
    · cases hv'

theorem bounded_installed (D : Deployment) (seed : Option ℕ) : Bounded D (installed D seed) where
  history k := by
    cases seed with
    | none => exact .nil
    | some recordCapacity =>
      show List.Pairwise _ (if k = D.capacityKey then _ else _)
      split
      · exact List.pairwise_singleton _ _
      · exact .nil
  placed k v hv := by
    obtain ⟨rfl, _, rfl⟩ := mem_installed hv
    rfl
  valid k v hv := by
    obtain ⟨-, _, rfl⟩ := mem_installed hv
    exact ⟨List.nodup_nil, Nat.zero_le _⟩
  ticketed _ k hkind hne := by
    obtain ⟨v, hv⟩ := List.exists_mem_of_ne_nil _ hne
    rw [(mem_installed hv).1] at hkind
    exact absurd rfl hkind
  slotted k v hv o ho := by
    obtain ⟨-, _, rfl⟩ := mem_installed (List.mem_of_mem_head? hv)
    cases ho

theorem old_installed (D : Deployment) (seed : Option ℕ) : Old (installed D seed) := by
  refine ⟨by cases seed <;> rfl, fun k v hv => ?_⟩
  obtain ⟨-, _, rfl⟩ := mem_installed hv
  rfl

abbrev LedgerWorld :=
  World Partition Document Time Empty (Except Fault LedgerReply) LedgerRequest

/-- ADMITTED: in every run, every document has its ticket in the register, of which there are at most
    `recordCapacity`; every live recoverable offer has a slot of its owner with its own fingerprint,
    of which there are at most 128; and a `reserveOffer` that fails with a definite error leaves no
    slot that it took, or the offer exists. -/
theorem slots_admitted (D : Deployment) (seed : Option ℕ) {w : LedgerWorld}
    (hrun : Run (program D) false (World.start (installed D seed)) w) :
    (D.recordCapacity.isSome = true → ∀ k, k.kind ≠ .capacity → w.store.docs k ≠ [] →
      ∃ v ∈ (w.store.docs D.capacityKey).head?, ∃ r, v.doc.body = .capacity r ∧ k ∈ r.tickets) ∧
    (∀ v ∈ w.store.docs D.capacityKey, ∀ r, v.doc.body = .capacity r → r.tickets.Nodup ∧
      ∀ recordCapacity, D.recordCapacity = some recordCapacity →
        r.tickets.length ≤ recordCapacity) ∧
    (∀ k, ∀ v ∈ (w.store.docs k).head?, ∀ o, v.doc.body = .offer o →
      o.directory.isSome = true → o.revoked = false →
      ∃ u ∈ (w.store.docs (D.partitionId .offerOwner o.owner)).head?,
        u.doc.logicalId = o.owner ∧ ⟨v.doc.logicalId, o.fingerprint⟩ ∈ u.doc.slots) ∧
    (∀ k, ∀ v ∈ w.store.docs k, v.doc.slots.length ≤ 128 ∧ (v.doc.slots.map Slot.id).Nodup) ∧
    ∀ n h c e, (n, .error e) ∈ w.answers → w.calls[n]? = some (.reserveOffer h c) →
      e.status ≠ 503 →
      Cleared n (D.partitionId .offerOwner c.owner) c.slot w.store ∨ Exists D c w.store := by
  have hb := (sound_of_run (verified_program D) (bounded_installed D seed)
    (old_installed D seed) hrun).inv
  refine ⟨fun hcap k hkind hne => ?_, fun v hv r hr => ?_, hb.slotted, fun k v hv => ?_, ?_⟩
  · obtain ⟨u, hu, r, hr, hmem⟩ := hb.ticketed hcap k hkind hne
    cases hdocs : w.store.docs D.capacityKey with
    | nil =>
      rw [hdocs] at hu
      cases hu
    | cons v older =>
      have hv : v ∈ (w.store.docs D.capacityKey).head? := by
        rw [hdocs]
        rfl
      refine ⟨v, rfl, ?_⟩
      rcases newest_follows (hb.history _) hv hu with rfl | hf
      · exact ⟨r, hr, hmem⟩
      · have hbody := hf.body
        cases hvb : v.doc.body with
        | capacity r' =>
          rw [hvb, hr] at hbody
          exact ⟨r', rfl, hbody hmem⟩
        | _ =>
          rw [hvb, hr] at hbody
          cases hbody
  · have hvalid := hb.valid _ v hv
    rw [Valid, hr] at hvalid
    refine ⟨hvalid.1, fun recordCapacity hcap => ?_⟩
    have hlen := hvalid.2
    rw [hcap] at hlen
    exact hlen
  · have hvalid := hb.valid k v hv
    rw [Document.slots]
    cases hvb : v.doc.body with
    | offerOwner i =>
      rw [Valid, hvb] at hvalid
      exact hvalid.2
    | _ => exact ⟨Nat.zero_le _, List.nodup_nil⟩
  · intro n h c e hmem hcall hdef
    have hanswered := answered_of_run (verified_program D) (bounded_installed D seed)
      (old_installed D seed) (fun _ _ _ _ _ _ _ henv ho => Outcome.env ho henv) hrun
    obtain ⟨-, c', hc', hout⟩ := hanswered n _ hmem
    rw [hcall] at hc'
    cases hc'
    exact (hout fun e' he' => by cases he'; exact hdef).2 e rfl

/-! ### Two owners of one id -/

/-- SHA-256, of the texts that are hashed here. -/
def digests : List (JsString × JsString) :=
  [(capacityId, js "ba9a61835959742b7cfed5543b27ac9108135f290c51880a0067e4876b11a9ec"),
   (js "https://a.documents.azure.com/dbs/d/colls/c/docs", js "d4d9d3b7cda12cee63e4342429884ddc35048971f6f258907611ed275823cd35"),
   (js "offer-1", js "eeab782d266be49d56d0803a8c6c732a780dcb48f957df5e8a07de66d8f3f604"), (js "node-1", js "35971be6e9bb024a895582fe0e42e04848a86da550aaef0fccbfba86f99f617d"), (js "node-2", js "1779f59f4df251f6b81aeb08fb52a5d84ad4eef833c7fdf0bc576cd1aab11d24"),
   (js "\x7b\"from\":\"node-1\"\x7d", js "229b976ae11e393261a8077f66ef3cb969769e91883bc6dc45bf57b692f6be42"), (js "\x7b\"from\":\"node-2\"\x7d", js "4e9786cc82bcc7b29d62ddf5556b285fd65b738c9ca909a98a59501e7e06a110")]

def small : Deployment where
  hash s := (digests.lookup s).getD []
  verifyEnvelope _ := true
  base := js "https://a.documents.azure.com/dbs/d/colls/c/docs"
  recordCapacity := some 4

def someHost : Host := ⟨850000, 256, 5, fun _ => 500⟩

def offerOf (owner json : JsString) : OfferReservation :=
  ⟨js "offer-1", owner, small.hash json, some ⟨js "offer-1", owner, some (js "echo"), json⟩⟩

def first : OfferReservation := offerOf (js "node-1") (js "\x7b\"from\":\"node-1\"\x7d")

def second : OfferReservation := offerOf (js "node-2") (js "\x7b\"from\":\"node-2\"\x7d")

/-- Two owners take a slot for offers with one id before either offer is created. -/
def oneId : List (Move Time LedgerRequest) :=
  [.call (.reserveOffer someHost first), .call (.reserveOffer someHost second)] ++
    List.replicate 9 (.go 0 0) ++ List.replicate 9 (.go 1 0) ++ List.replicate 5 (.go 0 0) ++
    List.replicate 14 (.go 1 0)

def afterOneId : LedgerWorld := (World.start (installed small (some 4))).play (program small) oneId

theorem run_afterOneId :
    Run (program small) false (World.start (installed small (some 4))) afterOneId :=
  run_play (program small) false oneId (World.start (installed small (some 4)))

/-- The digests again. The kernel computes with numbers faster than with literals. -/
def digits : List (JsString × JsString) :=
  [(capacityId,
    hexText 0xba9a61835959742b7cfed5543b27ac9108135f290c51880a0067e4876b11a9ec),
   (js "https://a.documents.azure.com/dbs/d/colls/c/docs",
    hexText 0xd4d9d3b7cda12cee63e4342429884ddc35048971f6f258907611ed275823cd35),
   (js "offer-1",
    hexText 0xeeab782d266be49d56d0803a8c6c732a780dcb48f957df5e8a07de66d8f3f604),
   (js "node-1",
    hexText 0x35971be6e9bb024a895582fe0e42e04848a86da550aaef0fccbfba86f99f617d),
   (js "node-2",
    hexText 0x1779f59f4df251f6b81aeb08fb52a5d84ad4eef833c7fdf0bc576cd1aab11d24),
   (js "\x7b\"from\":\"node-1\"\x7d",
    hexText 0x229b976ae11e393261a8077f66ef3cb969769e91883bc6dc45bf57b692f6be42),
   (js "\x7b\"from\":\"node-2\"\x7d",
    hexText 0x4e9786cc82bcc7b29d62ddf5556b285fd65b738c9ca909a98a59501e7e06a110)]

theorem digests_eq : digests = digits := by
  rw [digests, digits]
  repeat rw [js_ofList]
  rfl

def numbered : Deployment := { small with hash := fun s => (digits.lookup s).getD [] }

theorem small_eq : small = numbered := by
  rw [numbered, small, digests_eq]

/-- The second owner has taken a slot and given it back; the offer of the first has its ticket. -/
theorem one_id :
    (afterOneId.store.docs (small.partitionId .offerOwner (js "node-2"))).map
      (fun v => v.doc.slots.length) = [0, 1, 0] ∧
    ∃ v ∈ (afterOneId.store.docs small.capacityKey).head?, ∃ r, v.doc.body = .capacity r ∧
      small.partitionId .offer (js "offer-1") ∈ r.tickets := by
  have hslots : (afterOneId.store.docs (small.partitionId .offerOwner (js "node-2"))).map
      (fun v => v.doc.slots.length) = [0, 1, 0] := by
    rw [afterOneId, oneId, first, second, offerOf, offerOf, small_eq]
    decide +kernel
  have hlength : (afterOneId.store.docs (small.partitionId .offer (js "offer-1"))).length = 1 := by
    rw [afterOneId, oneId, first, second, offerOf, offerOf, small_eq]
    decide +kernel
  refine ⟨hslots, (slots_admitted small (some 4) run_afterOneId).1 rfl _ (by decide) ?_⟩
  intro hnone
  rw [hnone] at hlength
  cases hlength

end Truyn.Offers
