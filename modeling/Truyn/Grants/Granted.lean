import Truyn.Grants.PaidNeeds

/-! grants:granted | a paid record is one that the relay reserved under a grant

    A record keeps whom it is for and what it is for, and a terminal status is final (`Keeps`). A
    record with a paid authorization was created by the relay call that was granted exactly it
    (`Reserved`). Every program keeps to it (`verified_program`). -/

namespace Truyn.Grants
open Ledger Ledger.Cosmos Ledger.Outbox Programs

/-- The authority gave a valid decision on exactly this. -/
def OfferPolicy.Allows (policy : OfferPolicy) (g : Grant) : Prop :=
  policy.providerNodeId = g.provider ∧ ∃ authority decision providerPolicy,
    policy.providerGrantAuthority = some authority ∧ authority.durable = true ∧
    authority.authorize g.provider g.requester g.capability = some decision ∧
    decision.ok = true ∧ decision.mode ∈ paidModes ∧
    (decision.mode = js "shared" → decision.grantId.any nonempty = true) ∧
    authority.getProviderPolicy g.provider = some (some providerPolicy) ∧
    providerPolicy.status = js "active" ∧ providerPolicy.mode = decision.mode

/-- What a newer version of a record keeps. -/
structure Keeps (newer older : StoredNeed) : Prop where
  logicalId : newer.logicalId = older.logicalId
  requester : newer.requester = older.requester
  provider : newer.provider = older.provider
  capability : newer.capability = older.capability
  fingerprint : newer.fingerprint = older.fingerprint
  paid : newer.paidAuthorization = older.paidAuthorization
  status : older.status ≠ .matched → newer.status = older.status

theorem Keeps.trans {a b c : StoredNeed} (h : Keeps a b) (h' : Keeps b c) : Keeps a c where
  logicalId := h.logicalId.trans h'.logicalId
  requester := h.requester.trans h'.requester
  provider := h.provider.trans h'.provider
  capability := h.capability.trans h'.capability
  fingerprint := h.fingerprint.trans h'.fingerprint
  paid := h.paid.trans h'.paid
  status := fun hc => by
    have hb := h'.status hc
    exact (h.status (hb ▸ hc)).trans hb

abbrev NeedStore := Store JsString StoredNeed Deed

/-- What a record was reserved for. -/
def grantOf (d : StoredNeed) : Grant :=
  ⟨d.logicalId, d.requester, d.provider, d.capability, d.fingerprint⟩

/-- Records keep what they are for, and a paid one was created by the call that was granted it. -/
structure Reserved (s : NeedStore) : Prop where
  history : ∀ k, (s.docs k).Pairwise fun newer older => Keeps newer.doc older.doc
  placed : ∀ k, ∀ v ∈ s.docs k, v.doc.logicalId = k
  granted : ∀ k, ∀ v ∈ s.docs k, v.doc.paidAuthorization.isSome = true → ∃ n policy,
    (n, Deed.granted policy (grantOf v.doc)) ∈ s.log ∧ policy.Allows (grantOf v.doc) ∧
      ∃ u ∈ (s.docs k).getLast?, u.writer = some n

/-- Records gain versions, and calls do more and more. -/
def needs : Theory JsString StoredNeed Deed where
  inv := Reserved
  may s t := (∀ k, s.docs k <:+ t.docs k) ∧ s.log <:+ t.log
  refl _ := ⟨fun _ => List.suffix_rfl, List.suffix_rfl⟩
  trans h h' := ⟨fun k => (h.1 k).trans (h'.1 k), h.2.trans h'.2⟩
  grows h := h.1

variable {s : NeedStore} {n : ℕ} {k : JsString} {d : StoredNeed}

variable {doc next : Doc} {cfg : Config} {now : Time} {x : Extras} {L : Limits} {r : Request}
  {h : ProviderHost} {need : Presented}

/-! ### What the ledger's calls write -/

theorem appendDelivery_keeps {doc' : Doc} {delivery : Option Delivery} {kind : Kind}
    {recipient : JsString} (h : appendDelivery cfg doc delivery kind recipient = .ok doc') :
    ∃ items, doc' = { doc with deliveries := items } := by
  obtain ⟨items, -, rfl⟩ := appendDelivery_ok h
  exact ⟨_, rfl⟩

/-- A transition leaves `matched`, for good. -/
theorem transitionNeed_keeps {c : Transition} (h : transitionNeed cfg c now doc = .ok (some next)) :
    Keeps ⟨next, x⟩ ⟨doc, x⟩ := by
  unfold transitionNeed at h
  split at h
  · cases h
  split at h
  · split at h <;> cases h
  next hm =>
  split at h
  · cases h
  split at h
  · cases h
  next doc' hdoc' =>
  cases h
  obtain ⟨items, rfl⟩ : ∃ items, doc' = { doc with deliveries := items } := by
    unfold appendTerminal at hdoc'
    split at hdoc'
    · exact appendDelivery_keeps hdoc'
    · exact appendDelivery_keeps hdoc'
    · cases hdoc'
      exact ⟨_, rfl⟩
  exact ⟨rfl, rfl, rfl, rfl, rfl, rfl, fun hne => absurd (not_not.mp hm) hne⟩

theorem acceptPartial_keeps {c : Partial} (h : acceptPartial cfg c doc = .ok (some next)) :
    Keeps ⟨next, x⟩ ⟨doc, x⟩ := by
  unfold acceptPartial at h
  split at h
  · cases h
  split at h
  · cases h
  split at h
  · cases h
  split at h
  · cases h
  split at h
  · cases h
  split at h
  · cases h
  split at h
  · cases h
  next doc' hdoc' =>
  cases h
  obtain ⟨items, rfl⟩ := appendDelivery_keeps hdoc'
  exact ⟨rfl, rfl, rfl, rfl, rfl, rfl, fun _ => rfl⟩

theorem acknowledgeDelivery_keeps {c : Acknowledgement}
    (h : acknowledgeDelivery c now doc = .ok (some next)) : Keeps ⟨next, x⟩ ⟨doc, x⟩ := by
  unfold acknowledgeDelivery at h
  split at h
  · cases h
  split at h
  · cases h
  split at h <;> cases h
  exact ⟨rfl, rfl, rfl, rfl, rfl, rfl, fun _ => rfl⟩

variable {c : Call} {d' : StoredNeed} {capability : JsString} {paidNeedEnforcement : Bool}
  {m : NeedMessage}

theorem callback_keeps (h : callback cfg now doc c = .ok (some next)) :
    Keeps ⟨next, x⟩ ⟨doc, x⟩ := by
  cases c with
  | reserveNeed c => cases h
  | transitionNeed c => exact transitionNeed_keeps h
  | acceptPartial c => exact acceptPartial_keeps h
  | acknowledgeDelivery c => exact acknowledgeDelivery_keeps h

theorem write_keeps {version : ℕ} {r : Except Fault (Option StoredNeed)}
    (h : Outbox.write L version r = .ok (some d')) :
    ∃ next, r = .ok (some next) ∧ Keeps d' next := by
  unfold Outbox.write at h
  split at h
  · cases h
  · cases h
  next next =>
  cases hp : packed (config L next.toExtras) { next.toDoc with version := version + 1 } with
  | error f =>
    rw [hp] at h
    cases h
  | ok doc =>
    rw [hp] at h
    cases h
    rw [Cosmos.packed_ok hp]
    exact ⟨next, rfl, rfl, rfl, rfl, rfl, rfl, rfl, fun _ => rfl⟩

/-- Every call that writes a record again keeps to it. -/
theorem edit_keeps {now : Clock} (h : Outbox.edit L r now d = .ok (some d')) :
    Keeps d' d := by
  unfold Outbox.edit at h
  split at h
  · next c _ =>
    cases he : Cosmos.edit (config L d.toExtras) c now.time d.toDoc with
    | error f =>
      rw [he] at h
      cases h
    | ok o =>
      rw [he] at h
      cases o with
      | none => cases h
      | some next =>
        cases h
        unfold Cosmos.edit at he
        split at he
        · cases he
        split at he
        · cases he
        · cases he
        next doc hcb =>
        cases hp : packed (config L d.toExtras) { doc with version := d.version + 1 } with
        | error f =>
          rw [hp] at he
          cases he
        | ok p =>
          rw [hp] at he
          cases he
          rw [Cosmos.packed_ok hp]
          have hkeep : Keeps ⟨doc, d.toExtras⟩ ⟨d.toDoc, d.toExtras⟩ := callback_keeps hcb
          exact { hkeep with }
  · split at h
    · cases h
    obtain ⟨next, hnext, hkeep⟩ := write_keeps h
    unfold compactNeed at hnext
    split at hnext
    · cases hnext
    split at hnext
    · cases hnext
    split at hnext
    · cases hnext
    cases hnext
    exact hkeep.trans ⟨rfl, rfl, rfl, rfl, rfl, rfl, fun _ => rfl⟩
  · split at h
    · cases h
    obtain ⟨next, hnext, hkeep⟩ := write_keeps h
    unfold commitRecoveredResult at hnext
    split at hnext
    · cases hnext
    split at hnext
    · split at hnext <;> cases hnext
    split at hnext
    · cases hnext
    next hm =>
    split at hnext
    · cases hnext
    split at hnext
    · cases hnext
    next doc hdoc =>
    cases hnext
    obtain ⟨items, rfl⟩ := appendDelivery_keeps hdoc
    exact hkeep.trans ⟨rfl, rfl, rfl, rfl, rfl, rfl, fun hne => absurd (not_not.mp hm) hne⟩

/-- What a reservation creates. -/
theorem plan_reserves {c : Reservation} {paidJson : JsString} {now : Clock}
    (h : plan L (.ledger (.reserveNeed c) paidJson) now = .ok (some d)) :
    grantOf d = ⟨c.id, c.requester, c.provider, c.capability, c.fingerprint⟩ ∧
      d.paidAuthorization = c.paidAuthorization ∧
      ∀ p, c.paidAuthorization = some p → PaidAuthorization.fits p c = true := by
  simp only [Outbox.plan, Cosmos.plan] at h
  cases hr : Cosmos.reserveNeed (config L (fresh paidJson)) c now.time with
  | error f =>
    rw [hr] at h
    cases h
  | ok doc =>
    rw [hr] at h
    cases h
    unfold Cosmos.reserveNeed at hr
    split at hr
    · cases hr
    split at hr
    · cases hr
    next hfits =>
    split at hr
    · cases hr
    next doc' happ =>
    obtain ⟨items, rfl⟩ := appendDelivery_keeps happ
    rw [Cosmos.packed_ok hr]
    refine ⟨rfl, rfl, fun p hp => ?_⟩
    rw [hp] at hfits
    simpa using hfits

/-- Only a reservation creates a document. -/
theorem cosmos_plan_creates (h : Cosmos.plan cfg c now = .ok (some doc)) :
    ∃ r, c = .reserveNeed r := by
  cases hc : c.reserves with
  | true =>
    cases c with
    | reserveNeed r => exact ⟨r, rfl⟩
    | _ => cases hc
  | false =>
    obtain ⟨hrefused, hplan⟩ := Cosmos.plan_mutates hc
    cases harg : Cosmos.arguments c with
    | error f =>
      rw [hrefused f harg] at h
      cases h
    | ok u =>
      rw [hplan harg] at h
      split at h <;> cases h

theorem plan_key {now : Clock} (h : plan L r now = .ok (some d)) :
    ∃ c paidJson, r = .ledger (.reserveNeed c) paidJson := by
  cases r with
  | ledger c paidJson =>
    simp only [Outbox.plan] at h
    cases hp : Cosmos.plan (config L (fresh paidJson)) c now.time with
    | error f =>
      rw [hp] at h
      cases h
    | ok o =>
      rw [hp] at h
      cases o with
      | none => cases h
      | some doc =>
        obtain ⟨c, rfl⟩ := cosmos_plan_creates hp
        exact ⟨c, paidJson, rfl⟩
  | compactNeed id requester =>
    simp only [Outbox.plan] at h
    split at h <;> cases h
  | commitRecoveredResult c =>
    simp only [Outbox.plan] at h
    split at h
    · cases h
    · split at h <;> cases h

/-! ### Writes and deeds -/

/-- A write that keeps to the newest version, by or after a call that was granted it. -/
theorem reserved_write (hs : Reserved s) (hid : d.logicalId = k)
    (hkeeps : ∀ u ∈ (s.docs k).head?, Keeps d u.doc)
    (hpaid : d.paidAuthorization.isSome = true → ∃ m policy,
      (m, Deed.granted policy (grantOf d)) ∈ s.log ∧ policy.Allows (grantOf d) ∧
        ∃ u ∈ (⟨some n, d⟩ :: s.docs k).getLast?, u.writer = some m) :
    Reserved (s.write n k d) ∧ needs.may s (s.write n k d) := by
  have hlast : ∀ {l : List (Version StoredNeed)} {v : Version StoredNeed} {u : Version StoredNeed},
      u ∈ l.getLast? → u ∈ (v :: l).getLast? := by
    intro l v u hu
    cases l with
    | nil => cases hu
    | cons x l => exact hu
  refine ⟨⟨fun k' => ?_, fun k' v hv => ?_, fun k' v hv hp => ?_⟩, fun k' => ?_, List.suffix_rfl⟩
  · by_cases hk : k' = k
    · subst hk
      rw [Store.write_docs]
      exact history_cons Keeps Keeps.trans (hs.history k') hkeeps
    · rw [Store.write_docs_ne hk]
      exact hs.history k'
  · by_cases hk : k' = k
    · subst hk
      rw [Store.write_docs] at hv
      rcases List.mem_cons.mp hv with rfl | hv
      · exact hid
      · exact hs.placed k' v hv
    · rw [Store.write_docs_ne hk] at hv
      exact hs.placed k' v hv
  · by_cases hk : k' = k
    · subst hk
      rw [Store.write_docs] at hv ⊢
      rcases List.mem_cons.mp hv with rfl | hv
      · exact hpaid hp
      · obtain ⟨m, policy, hlog, hallow, u, hu, hw⟩ := hs.granted k' v hv hp
        exact ⟨m, policy, hlog, hallow, u, hlast hu, hw⟩
    · rw [Store.write_docs_ne hk] at hv ⊢
      exact hs.granted k' v hv hp
  · by_cases hk : k' = k
    · subst hk
      rw [Store.write_docs]
      exact List.suffix_cons _ _
    · rw [Store.write_docs_ne hk]

theorem reserved_create (hs : Reserved s) (hid : d.logicalId = k) (hnone : s.docs k = [])
    (hpaid : d.paidAuthorization.isSome = true → ∃ policy,
      (n, Deed.granted policy (grantOf d)) ∈ s.log ∧ policy.Allows (grantOf d)) :
    Reserved (s.write n k d) ∧ needs.may s (s.write n k d) := by
  refine reserved_write hs hid (fun u hu => ?_) fun hp => ?_
  · rw [hnone] at hu
    cases hu
  · obtain ⟨policy, hlog, hallow⟩ := hpaid hp
    exact ⟨n, policy, hlog, hallow, ⟨some n, d⟩, by rw [hnone]; rfl, rfl⟩

theorem reserved_edit {v : Version StoredNeed} {older : List (Version StoredNeed)}
    (hs : Reserved s) (hd : s.docs k = v :: older) (hkeep : Keeps d v.doc) :
    Reserved (s.write n k d) ∧ needs.may s (s.write n k d) := by
  have hv : v ∈ s.docs k := hd ▸ List.mem_cons_self
  have hgrant : grantOf d = grantOf v.doc := by
    unfold grantOf
    rw [hkeep.logicalId, hkeep.requester, hkeep.provider, hkeep.capability, hkeep.fingerprint]
  refine reserved_write hs (hkeep.logicalId.trans (hs.placed k v hv)) (fun u hu => ?_) fun hp => ?_
  · rw [hd] at hu
    cases hu
    exact hkeep
  · rw [hkeep.paid] at hp
    obtain ⟨m, policy, hlog, hallow, u, hu, hw⟩ := hs.granted k v hv hp
    rw [hgrant]
    refine ⟨m, policy, hlog, hallow, u, ?_, hw⟩
    rw [hd] at hu ⊢
    exact hu

theorem reserved_act (hs : Reserved s) (n : ℕ) (o : Deed) :
    Reserved (s.act n o) ∧ needs.may s (s.act n o) := by
  refine ⟨⟨hs.history, hs.placed, fun k v hv hp => ?_⟩, fun _ => List.suffix_rfl,
    List.suffix_cons _ _⟩
  obtain ⟨m, policy, hlog, hrest⟩ := hs.granted k v hv hp
  exact ⟨m, policy, List.mem_cons_of_mem _ hlog, hrest⟩

/-! ### The programs keep to it -/

variable {waits : Bool} {sha : JsString → JsString}

/-- Nothing is asked of what a program comes to. -/
abbrev Runs (n : ℕ) {β : Type} (p : NeedAct β) (waits : Bool) (s : NeedStore) : Prop :=
  Returns needs false n (fun _ _ _ => True) p waits s

theorem returns_getNeed {id : JsString} :
    Returns needs false n (fun w _ t => w = waits ∧ needs.may s t) (getNeed id) waits s := by
  unfold getNeed
  split
  · exact Returns.throw
  refine Returns.bind (Returns.get ?_ ?_)
  · exact fun t hst _ => Returns.pure fun u htu _ => ⟨rfl, (hst.trans htu).may⟩
  · intro t v older hst _ _
    simp only
    split
    · exact Returns.throw
    · exact Returns.pure fun u htu _ => ⟨rfl, (hst.trans htu).may⟩

/-- A write, of a reservation that is not paid or that this very call was granted. -/
theorem runs_write
    (hpaid : ∀ c paidJson p, r = .ledger (.reserveNeed c) paidJson → c.paidAuthorization = some p →
      PaidAuthorization.fits p c = true → ∃ policy,
        (n, Deed.granted policy ⟨c.id, c.requester, c.provider, c.capability, c.fingerprint⟩) ∈
          s.log ∧
        policy.Allows ⟨c.id, c.requester, c.provider, c.capability, c.fingerprint⟩) :
    Runs n (write L r) waits s := by
  unfold write
  refine Returns.bind (Returns.ask fun o t hst _ => ?_)
  split
  · exact Returns.throw
  · next doc hplan =>
    obtain ⟨c, paidJson, rfl⟩ := plan_key hplan
    obtain ⟨hgrant, hsame, hfits⟩ := plan_reserves hplan
    refine Returns.bind (Returns.check fun _ _ u htu _ => Returns.bind (Returns.create ?_ ?_ ?_))
    · intro x hux hx hnone
      refine reserved_create hx (congrArg Grant.id hgrant) hnone fun hp => ?_
      rw [hsame] at hp
      obtain ⟨p, hp⟩ := Option.isSome_iff_exists.mp hp
      obtain ⟨policy, hlog, hallow⟩ := hpaid c paidJson p rfl hp (hfits p hp)
      rw [hgrant]
      exact ⟨policy, (needs.trans (hst.trans htu).may hux).2.subset hlog, hallow⟩
    · exact fun _ _ _ _ _ _ _ => Returns.pure fun _ _ _ => trivial
    · exact fun _ _ _ => Returns.throw
  · refine Returns.bind (Returns.mutate ?_ ?_ ?_ _)
    · exact fun _ _ _ _ _ _ _ _ => Returns.pure fun _ _ _ => trivial
    · exact fun x v older o d _ hx hd hf => reserved_edit hx hd (edit_keeps hf)
    · exact fun _ _ _ _ _ _ _ _ _ _ _ _ => Returns.pure fun _ _ _ => trivial

/-- An authorization is given by a valid decision on exactly this. -/
theorem authorizePaidNeedAtRelay_ok {policy : OfferPolicy} {requester : JsString}
    {paid : PaidAuthorization × Option JsString}
    (h : authorizePaidNeedAtRelay policy requester capability = .ok paid)
    (id fingerprint : JsString) :
    paid.1.providerNodeId = policy.providerNodeId ∧
      policy.Allows ⟨id, requester, policy.providerNodeId, capability, fingerprint⟩ := by
  unfold authorizePaidNeedAtRelay at h
  split at h
  · cases h
  next authority hauthority =>
  split at h
  · cases h
  next hchecked =>
  simp only [not_or, Bool.not_eq_true', Bool.not_eq_false] at hchecked
  split at h
  · next decision providerPolicy hdecision hpolicy =>
    split at h
    · cases h
    next hdenied =>
    simp only [not_or, Bool.not_eq_true', Bool.not_eq_false, not_not, not_and] at hdenied
    split at h
    · cases h
    cases h
    exact ⟨rfl, rfl, authority, decision, providerPolicy, hauthority, hchecked.2.2.2, hdecision,
      hdenied.1, hdenied.2.2.1, hdenied.2.2.2.2, hpolicy, hdenied.2.1, hdenied.2.2.2.1⟩
  · cases h
  · cases h

theorem returns_paidGrant {found : Match} :
    Returns needs false n (fun _ paid t => ∀ p grantId, paid = some (p, grantId) →
      p.providerNodeId = found.policy.providerNodeId ∧
        (n, Deed.granted found.policy
          ⟨m.id, m.sender, found.policy.providerNodeId, capability, sha m.text⟩) ∈ t.log ∧
        found.policy.Allows ⟨m.id, m.sender, found.policy.providerNodeId, capability, sha m.text⟩)
      (paidGrant sha paidNeedEnforcement m capability found) waits s := by
  unfold paidGrant
  split
  · exact Returns.pure fun _ _ _ _ _ hp => nomatch hp
  refine Returns.bind (Returns.check fun paid hpaid t hst _ => ?_)
  obtain ⟨hprovider, hallows⟩ := authorizePaidNeedAtRelay_ok hpaid m.id (sha m.text)
  refine Returns.bind (Returns.emit (fun _ _ hu => reserved_act hu _ _) fun u v _ _ huv _ => ?_)
  refine Returns.pure fun x hvx _ p grantId hp => ?_
  cases hp
  exact ⟨hprovider, (needs.trans huv.may hvx.may).2.subset List.mem_cons_self, hallows⟩

theorem runs_relayNeed :
    Runs n (relayNeed sha L paidNeedEnforcement m) waits s := by
  unfold relayNeed
  refine Returns.bind (Returns.ask fun _ _ _ _ => Returns.bind (Returns.check fun _ _ _ _ _ => ?_))
  refine Returns.bind (Returns.mono returns_getNeed fun b found t _ _ => ?_)
  cases found with
  | some r => exact Returns.throw
  | none =>
    cases m.capability with
    | none => exact Returns.throw
    | some capability =>
      refine Returns.bind (Returns.ask fun _ _ _ _ =>
        Returns.bind (Returns.check fun found _ _ _ _ => ?_))
      cases found with
      | none => exact Returns.throw
      | some found =>
        refine Returns.bind (Returns.mono returns_paidGrant fun _ paid t _ hpaid => ?_)
        refine Returns.bind (Returns.ask fun _ u htu _ =>
          Returns.bind (Returns.check fun _ _ v huv _ => runs_write ?_))
        rintro c paidJson p ⟨⟩ hp hfits
        obtain ⟨⟨p', grantId⟩, rfl, rfl⟩ := Option.map_eq_some_iff.mp hp
        obtain ⟨hprovider, hlog, hallows⟩ := hpaid p' grantId rfl
        have hsame : p'.providerNodeId = found.provider := (of_decide_eq_true hfits).2.2.2.1
        have hgrant : found.policy.providerNodeId = found.provider := hprovider.symm.trans hsame
        rw [hgrant] at hlog hallows
        exact ⟨found.policy, (needs.trans htu.may huv.may).2.subset hlog, hallows⟩

/-- Writes of others reserve nothing paid. -/
theorem runs_ledger : Runs n (write L (unpaid r)) waits s := by
  refine runs_write fun c paidJson p hr hp _ => ?_
  have hnone : c.paidAuthorization = none := by
    unfold unpaid at hr
    split at hr
    · cases hr
      rfl
    · next hother => exact absurd hr (hother c paidJson)
  rw [hnone] at hp
  cases hp

theorem runs_verify :
    Runs n (verifyPaidNeedAtProvider h need) waits s := by
  unfold verifyPaidNeedAtProvider
  split
  · exact Returns.throw
  split
  · exact Returns.throw
  have hrecord : Runs n (recordOf need.id) waits s :=
    Returns.catching (Returns.mono returns_getNeed fun _ _ _ _ _ => trivial)
      fun _ _ _ => Returns.throw
  refine Returns.bind (Returns.mono hrecord fun b found t _ _ => ?_)
  cases found with
  | none => exact Returns.throw
  | some r =>
    simp only
    split
    · exact Returns.throw
    refine Returns.bind (Returns.ask fun o u _ _ => ?_)
    split
    · exact Returns.throw
    · exact Returns.pure fun _ _ _ => trivial

theorem runs_required :
    Runs n (verifyRequired h need) waits s := by
  unfold verifyRequired
  split
  · exact Returns.pure fun _ _ _ => trivial
  · exact runs_verify

theorem runs_executeNeed :
    Runs n (executeNeed h need) waits s := by
  have hend : ∀ {b : Bool} {waits : Bool} {t : NeedStore},
      Runs n (pure b : NeedAct Bool) waits t := Returns.pure fun _ _ _ => trivial
  have hstart : ∀ {waits : Bool} {t : NeedStore}, Runs n (startAdapter h need) waits t := by
    intro waits t
    unfold startAdapter
    refine Returns.bind (Returns.ask fun _ _ _ _ => Returns.bind (Returns.check fun _ _ _ _ _ => ?_))
    refine Returns.bind (Returns.ask fun _ _ _ _ => ?_)
    split
    · exact hend
    refine Returns.bind (Returns.mono runs_required fun _ tag _ _ _ => ?_)
    exact Returns.bind (Returns.emit (fun _ _ hu => reserved_act hu _ _) fun _ _ _ _ _ _ => hend)
  unfold executeNeed
  split
  · exact hend
  refine Returns.bind (Returns.ask fun _ _ _ _ => ?_)
  split
  · exact hend
  refine Returns.bind (Returns.mono runs_required fun _ _ _ _ _ => ?_)
  refine Returns.bind (Returns.mono (P := fun _ _ _ => True) ?_ fun _ taken _ _ _ => ?_)
  · unfold takeEffect
    split
    · exact hend
    · exact Returns.bind (Returns.ask fun _ _ _ _ => Returns.check fun _ _ _ _ _ => trivial)
  split
  · exact hend
  refine Returns.bind (Returns.mono (P := fun _ _ _ => True) ?_ fun _ billed _ _ _ => ?_)
  · unfold authorizeBilling
    split
    · exact hend
    · exact Returns.bind (Returns.ask fun _ _ _ _ => Returns.check fun _ _ _ _ _ => trivial)
  split
  · exact hend
  refine Returns.bind (Returns.ask fun _ _ _ _ => ?_)
  split
  · exact hend
  · exact hstart

theorem verified_program :
    Verified needs false (program sha) fun _ _ _ _ _ => True := by
  intro n c s _ _
  have hall : ∀ {p : NeedAct Bool}, Runs n p true s →
      Safe needs false n (fun _ _ _ => True) p true s :=
    fun h => Safe.mono h fun _ _ _ _ _ => trivial
  cases c with
  | relay L paidNeedEnforcement m => exact hall runs_relayNeed
  | ledger L r => exact hall runs_ledger
  | provider h e =>
    cases hneed : normalizeEvent sha e with
    | none => exact hall (by rw [program, hneed]; exact Returns.pure fun _ _ _ => trivial)
    | some need => exact hall (by rw [program, hneed]; exact runs_executeNeed)

end Truyn.Grants
