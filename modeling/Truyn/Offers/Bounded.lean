import Truyn.Offers.Ledger

/-! offers:bounded | every document has its ticket, every recoverable offer its slot

    The invariant of a container (`Bounded`), and what each call may do to it. A slot is given up
    only where the offer it was for cannot be a live one any more (`Voided`): its id is taken by a
    revoked offer, or by one of another owner or with another fingerprint. -/

namespace Truyn.Offers
open Ledger Ledger.Cosmos Programs

/-- The slots of an index. -/
def Document.slots (d : Document) : List Slot :=
  match d.body with
  | .offerOwner i => i.offerSlots
  | _ => []

/-- What the next version of a document keeps; NEEDs and effects have none here. -/
def Body.follows : Body → Body → Prop
  | .offer o', .offer o => o'.owner = o.owner ∧ o'.fingerprint = o.fingerprint ∧
      o'.directory = o.directory ∧ (o.revoked = true → o'.revoked = true)
  | .capacity r', .capacity r => r.tickets ⊆ r'.tickets
  | .offerOwner i', .offerOwner i => i'.owner = i.owner
  | _, _ => False

/-- A newer version keeps to an older one. -/
structure Follows (newer older : Document) : Prop where
  logicalId : newer.logicalId = older.logicalId
  body : newer.body.follows older.body

variable {D : Deployment} {s t : LedgerStore} {owner : JsString} {slot : Slot} {n : ℕ}
  {k : Partition} {d : Document}

/-- The owner's index has the slot now. -/
def Holds (D : Deployment) (s : LedgerStore) (owner : JsString) (slot : Slot) : Prop :=
  ∃ v ∈ (s.docs (D.partitionId .offerOwner owner)).head?,
    v.doc.logicalId = owner ∧ slot ∈ v.doc.slots

/-- The slot's id is taken by an offer that is revoked, or is not the one the slot is for. -/
def Voided (D : Deployment) (s : LedgerStore) (owner : JsString) (slot : Slot) : Prop :=
  ∃ v ∈ s.docs (D.partitionId .offer slot.id), ∃ o, v.doc.body = .offer o ∧
    (o.revoked = true ∨ o.owner ≠ owner ∨ o.fingerprint ≠ slot.fingerprint)

/-- The register has a ticket for the document. -/
def Ticketed (D : Deployment) (s : LedgerStore) (k : Partition) : Prop :=
  ∃ v ∈ s.docs D.capacityKey, ∃ r, v.doc.body = .capacity r ∧ k ∈ r.tickets

/-- What holds of each version by itself. -/
def Valid (D : Deployment) (d : Document) : Prop :=
  match d.body with
  | .capacity r => r.tickets.Nodup ∧ r.tickets.length ≤ D.recordCapacity.getD 0
  | .offerOwner i => i.owner = d.logicalId ∧ i.offerSlots.length ≤ 128 ∧
      (i.offerSlots.map Slot.id).Nodup
  | _ => True

/-- The documents are within their bounds: the register's tickets, the owners' slots. -/
structure Bounded (D : Deployment) (s : LedgerStore) : Prop where
  history : ∀ k, (s.docs k).Pairwise fun newer older => Follows newer.doc older.doc
  placed : ∀ k, ∀ v ∈ s.docs k, D.partitionId v.doc.body.kind v.doc.logicalId = k
  valid : ∀ k, ∀ v ∈ s.docs k, Valid D v.doc
  ticketed : D.recordCapacity.isSome = true → ∀ k, k.kind ≠ .capacity → s.docs k ≠ [] →
    Ticketed D s k
  slotted : ∀ k, ∀ v ∈ (s.docs k).head?, ∀ o, v.doc.body = .offer o → o.directory.isSome = true →
    o.revoked = false → Holds D s o.owner ⟨v.doc.logicalId, o.fingerprint⟩

theorem Voided.grows (h : Voided D s owner slot) (hst : ∀ k, s.docs k <:+ t.docs k) :
    Voided D t owner slot := by
  obtain ⟨v, hv, hrest⟩ := h
  exact ⟨v, (hst _).subset hv, hrest⟩

theorem Ticketed.grows (h : Ticketed D s k) (hst : ∀ k, s.docs k <:+ t.docs k) :
    Ticketed D t k := by
  obtain ⟨v, hv, hrest⟩ := h
  exact ⟨v, (hst _).subset hv, hrest⟩

/-- Documents gain versions, and slots are given up only where they are void. -/
def slots (D : Deployment) : Theory Partition Document Empty where
  inv := Bounded D
  may s t := (∀ k, s.docs k <:+ t.docs k) ∧
    ∀ owner slot, Holds D s owner slot → Holds D t owner slot ∨ Voided D t owner slot
  refl _ := ⟨fun _ => List.suffix_rfl, fun _ _ h => .inl h⟩
  trans h h' := by
    refine ⟨fun k => (h.1 k).trans (h'.1 k), fun owner slot hs => ?_⟩
    rcases h.2 owner slot hs with ht | ht
    · exact h'.2 owner slot ht
    · exact .inr (ht.grows h'.1)
  grows h := h.1

/-! ### Histories -/

theorem Body.follows_trans {a b c : Body} (h : a.follows b) (h' : b.follows c) : a.follows c := by
  cases a <;> cases b <;> cases c <;> simp only [Body.follows] at h h' ⊢
  · obtain ⟨ho, hf, hd, hr⟩ := h
    obtain ⟨ho', hf', hd', hr'⟩ := h'
    exact ⟨ho.trans ho', hf.trans hf', hd.trans hd', fun hc => hr (hr' hc)⟩
  · exact h.trans h'
  · exact fun x hx => h (h' hx)

theorem Follows.trans {a b c : Document} (h : Follows a b) (h' : Follows b c) : Follows a c :=
  ⟨h.logicalId.trans h'.logicalId, Body.follows_trans h.body h'.body⟩

variable {v : Version Document} {doc : Document} {id : JsString} {b : Option Body} {body : Body}
  {older : List (Version Document)} {m : ℕ}

/-- The newest version keeps to every other one. -/
theorem newest_follows {l : List (Version Document)}
    (h : l.Pairwise fun newer older => Follows newer.doc older.doc) {u : Version Document}
    (hv : v ∈ l.head?) (hu : u ∈ l) : u = v ∨ Follows v.doc u.doc := by
  cases l with
  | nil => cases hu
  | cons x l =>
    obtain rfl : x = v := Option.some.inj hv
    rcases List.mem_cons.mp hu with rfl | hu
    · exact .inl rfl
    · exact .inr ((List.pairwise_cons.mp h).1 u hu)

/-- A live offer voids no slot of its own. -/
theorem not_voided {o : Offer}
    (hhistory : (s.docs k).Pairwise fun newer older => Follows newer.doc older.doc)
    (hplaced : D.partitionId v.doc.body.kind v.doc.logicalId = k) (hv : v ∈ (s.docs k).head?)
    (ho : v.doc.body = .offer o) (hlive : o.revoked = false) :
    ¬Voided D s o.owner ⟨v.doc.logicalId, o.fingerprint⟩ := by
  rintro ⟨u, hu, o', ho', hbad⟩
  rw [ho] at hplaced
  have hu' : u ∈ s.docs k := hplaced ▸ hu
  rcases newest_follows hhistory hv hu' with rfl | hf
  · rw [ho] at ho'
    cases ho'
    rcases hbad with hr | hne | hne
    · rw [hlive] at hr
      cases hr
    · exact hne rfl
    · exact hne rfl
  · have hbody := hf.body
    rw [ho, ho'] at hbody
    obtain ⟨howner, hfp, -, hrev⟩ := hbody
    rcases hbad with hr | hne | hne
    · rw [hrev hr] at hlive
      cases hlive
    · exact hne howner.symm
    · exact hne hfp.symm

/-! ### Writes -/

theorem write_grows (s : LedgerStore) (n : ℕ) (k : Partition) (d : Document) (k' : Partition) :
    s.docs k' <:+ (s.write n k d).docs k' := by
  by_cases hk : k' = k
  · subst hk
    rw [Store.write_docs]
    exact List.suffix_cons _ _
  · rw [Store.write_docs_ne hk]

/-- A write that keeps everything within its bounds. -/
theorem bounded_write (hs : Bounded D s) (n : ℕ) (hplaced : D.partitionId d.body.kind d.logicalId = k)
    (hfollows : ∀ u ∈ (s.docs k).head?, Follows d u.doc) (hvalid : Valid D d)
    (hticket : D.recordCapacity.isSome = true → k.kind ≠ .capacity → Ticketed D s k)
    (hslot : ∀ o, d.body = .offer o → o.directory.isSome = true → o.revoked = false →
      Holds D s o.owner ⟨d.logicalId, o.fingerprint⟩)
    (hkeep : ∀ owner slot, k = D.partitionId .offerOwner owner → Holds D s owner slot →
      d.logicalId = owner ∧ slot ∈ d.slots ∨ Voided D s owner slot) :
    Bounded D (s.write n k d) ∧ (slots D).may s (s.write n k d) := by
  have hgrows := write_grows s n k d
  have hmay : (slots D).may s (s.write n k d) := by
    refine ⟨hgrows, fun owner slot hh => ?_⟩
    by_cases hk : D.partitionId .offerOwner owner = k
    · rcases hkeep owner slot hk.symm hh with ⟨hid, hmem⟩ | hv
      · refine .inl ⟨⟨some n, d⟩, ?_, hid, hmem⟩
        rw [hk, Store.write_docs]
        rfl
      · exact .inr (hv.grows hgrows)
    · left
      rw [Holds, Store.write_docs_ne hk]
      exact hh
  have hhistory : ∀ k', ((s.write n k d).docs k').Pairwise
      fun newer older => Follows newer.doc older.doc := by
    intro k'
    by_cases hk : k' = k
    · subst hk
      rw [Store.write_docs]
      exact history_cons Follows Follows.trans (hs.history k') hfollows
    · rw [Store.write_docs_ne hk]
      exact hs.history k'
  -- what holds of the new version and of all others
  have heach : ∀ {P : Partition → Version Document → Prop}, P k ⟨some n, d⟩ →
      (∀ k', ∀ v ∈ s.docs k', P k' v) → ∀ k', ∀ v ∈ (s.write n k d).docs k', P k' v := by
    intro P hnew hold k' v hv
    by_cases hk : k' = k
    · subst hk
      rw [Store.write_docs] at hv
      rcases List.mem_cons.mp hv with rfl | hv
      · exact hnew
      · exact hold k' v hv
    · rw [Store.write_docs_ne hk] at hv
      exact hold k' v hv
  have hplaced' := heach (P := fun k' v => D.partitionId v.doc.body.kind v.doc.logicalId = k')
    hplaced hs.placed
  refine ⟨⟨hhistory, hplaced', heach (P := fun _ v => Valid D v.doc) hvalid hs.valid,
    fun hcap k' hkind hne => ?_, fun k' v hv o ho hdir hlive => ?_⟩, hmay⟩
  · by_cases hk : k' = k
    · subst hk
      exact (hticket hcap hkind).grows hgrows
    · rw [Store.write_docs_ne hk] at hne
      exact (hs.ticketed hcap k' hkind hne).grows hgrows
  · have hhold : Holds D s o.owner ⟨v.doc.logicalId, o.fingerprint⟩ := by
      by_cases hk : k' = k
      · subst hk
        rw [Store.write_docs] at hv
        cases hv
        exact hslot o ho hdir hlive
      · rw [Store.write_docs_ne hk] at hv
        exact hs.slotted k' v hv o ho hdir hlive
    refine (hmay.2 _ _ hhold).resolve_right (not_voided (hhistory k') ?_ hv ho hlive)
    exact hplaced' k' v (List.mem_of_mem_head? hv)

/-- Documents that are no index leave the slots alone. -/
theorem keeps_slots (hkind : k.kind ≠ .offerOwner) (owner : JsString) (slot : Slot)
    (hk : k = D.partitionId .offerOwner owner) (_ : Holds D s owner slot) :
    d.logicalId = owner ∧ slot ∈ d.slots ∨ Voided D s owner slot := by
  rw [hk] at hkind
  exact absurd rfl hkind

/-! ### What the callbacks write -/

theorem packed_ok {h : Host} {r : Document} (hr : packed h doc = .ok r) : r = doc := by
  unfold packed at hr
  split at hr <;> cases hr
  rfl

/-- What `mutate` makes of its callback. -/
theorem update_ok {h : Host} {kind : Entity} {callback : Document → Except Fault (Option Body)}
    {now : Time} {r : Option Document} (hr : update h kind id callback now doc = .ok r) :
    doc.body.kind = kind ∧ doc.logicalId = id ∧ ∃ b, callback doc = .ok b ∧
      r = b.map fun body => { doc with version := doc.version + 1, body := body } := by
  unfold update at hr
  split at hr
  · cases hr
  next hown =>
  simp only [ne_eq, not_or, not_not] at hown
  refine ⟨hown.1, hown.2, ?_⟩
  split at hr
  · cases hr
  · next hc =>
    cases hr
    exact ⟨none, hc, rfl⟩
  · next body hc =>
    split at hr
    · cases hr
    · next hp =>
      cases hr
      exact ⟨some body, hc, by rw [packed_ok hp]; rfl⟩

theorem validateCapacity_ok {r : Register} (h : validateCapacity D doc = .ok r) :
    doc.body = .capacity r ∧ D.recordCapacity = some r.recordCapacity ∧
      r.tickets.length ≤ r.recordCapacity ∧ r.reserved = r.tickets.length ∧ r.tickets.Nodup := by
  unfold validateCapacity at h
  split at h
  · next q hq =>
    split at h
    · cases h
    next hgood =>
    cases h
    simp only [not_or, not_not, not_lt, ne_eq] at hgood
    obtain ⟨-, -, -, hcap, -, -, hlen, hres, hnodup, -⟩ := hgood
    exact ⟨hq, hcap, hlen, hres, hnodup⟩
  · cases h

theorem ticketUpdate_ok {ticket : Partition} (h : ticketUpdate D ticket doc = .ok b) :
    ∃ r, doc.body = .capacity r ∧
      (b = none ∧ ticket ∈ r.tickets ∨
        ∃ r', b = some (.capacity r') ∧ r'.tickets = r.tickets ++ [ticket] ∧ r'.tickets.Nodup ∧
          r'.tickets.length ≤ D.recordCapacity.getD 0) := by
  unfold ticketUpdate at h
  split at h
  · cases h
  next r hr =>
  obtain ⟨hbody, hcap, -, hres, hnodup⟩ := validateCapacity_ok hr
  refine ⟨r, hbody, ?_⟩
  split at h
  · next hmem =>
    cases h
    exact .inl ⟨rfl, hmem⟩
  next hnew =>
  split at h
  · cases h
  next hfull =>
  cases h
  refine .inr ⟨_, rfl, rfl, ?_, ?_⟩
  · exact List.nodup_append.mpr ⟨hnodup, List.pairwise_singleton _ _, by
      rintro a ha b hb rfl
      exact hnew (List.mem_singleton.mp hb ▸ ha)⟩
  · rw [hcap]
    simp only [List.length_append, List.length_singleton, Option.getD_some]
    omega

theorem validateOfferOwner_ok {i : OwnerIndex} (h : validateOfferOwner doc owner = .ok i) :
    doc.body = .offerOwner i ∧ i.owner = owner ∧ i.slotLimit = 128 ∧
      i.offerSlots.length ≤ 128 ∧ (i.offerSlots.map Slot.id).Nodup := by
  unfold validateOfferOwner at h
  split at h
  · next q hq =>
    split at h
    · cases h
    next hgood =>
    cases h
    simp only [not_or, not_not, not_lt, ne_eq] at hgood
    obtain ⟨howner, hlimit, hlen, -, hnodup⟩ := hgood
    exact ⟨hq, howner, hlimit, hlen, hnodup⟩
  · cases h

/-- A claim finds its slot, or takes a new one. -/
theorem claimUpdate_ok {c : OfferReservation} (h : claimUpdate c doc = .ok b) :
    ∃ i, doc.body = .offerOwner i ∧ i.owner = c.owner ∧
      (b = none ∧ c.slot ∈ i.offerSlots ∨
        b = some (.offerOwner { i with offerSlots := i.offerSlots ++ [c.slot] }) ∧
          i.offerSlots.length < 128 ∧ ((i.offerSlots ++ [c.slot]).map Slot.id).Nodup) := by
  unfold claimUpdate at h
  split at h
  · cases h
  next i hi =>
  obtain ⟨hbody, howner, hlimit, -, hnodup⟩ := validateOfferOwner_ok hi
  refine ⟨i, hbody, howner, ?_⟩
  split at h
  · next found hfind =>
    split at h
    · cases h
    next hsame =>
    cases h
    have hid : found.id = c.id := by simpa using List.find?_some hfind
    have hfound : found = c.slot := by
      cases found
      exact Slot.mk.injEq .. ▸ ⟨hid, not_not.mp hsame⟩
    exact .inl ⟨rfl, hfound ▸ List.mem_of_find?_eq_some hfind⟩
  · next hfind =>
    split at h
    · cases h
    next hroom =>
    cases h
    refine .inr ⟨rfl, by omega, ?_⟩
    rw [List.map_append, List.nodup_append]
    refine ⟨hnodup, List.pairwise_singleton _ _, ?_⟩
    rintro a ha b hb rfl
    obtain rfl := List.mem_singleton.mp hb
    obtain ⟨x, hx, hxid⟩ := List.mem_map.mp ha
    have hne := List.find?_eq_none.mp hfind x hx
    exact hne (decide_eq_true hxid)

/-- A release finds no slot, or takes it away. -/
theorem releaseUpdate_ok (h : releaseUpdate owner slot doc = .ok b) :
    ∃ i, doc.body = .offerOwner i ∧ i.owner = owner ∧
      (b = none ∧ slot.id ∉ i.offerSlots.map Slot.id ∨
        b = some (.offerOwner { i with
          offerSlots := i.offerSlots.filter fun entry => entry.id ≠ slot.id }) ∧
          i.offerSlots.length ≤ 128 ∧ (i.offerSlots.map Slot.id).Nodup ∧ slot ∈ i.offerSlots) := by
  unfold releaseUpdate at h
  split at h
  · cases h
  next i hi =>
  obtain ⟨hbody, howner, -, hlen, hnodup⟩ := validateOfferOwner_ok hi
  refine ⟨i, hbody, howner, ?_⟩
  split at h
  · next hfind =>
    cases h
    refine .inl ⟨rfl, fun hmem => ?_⟩
    obtain ⟨x, hx, hxid⟩ := List.mem_map.mp hmem
    exact List.find?_eq_none.mp hfind x hx (decide_eq_true hxid)
  · next found hfind =>
    split at h
    · cases h
    next hsame =>
    cases h
    refine .inr ⟨rfl, hlen, hnodup, ?_⟩
    have hid : found.id = slot.id := by simpa using List.find?_some hfind
    have hfound : found = slot := by
      cases found
      cases slot
      simp only [Slot.mk.injEq]
      exact ⟨hid, not_not.mp hsame⟩
    exact hfound ▸ List.mem_of_find?_eq_some hfind

theorem revokeUpdate_ok (h : revokeUpdate owner doc = .ok b) :
    ∃ o, doc.body = .offer o ∧ (b = none ∧ o.revoked = true ∨
      b = some (.offer { o with revoked := true })) := by
  unfold revokeUpdate at h
  split at h
  · next o ho =>
    refine ⟨o, ho, ?_⟩
    split at h
    · cases h
    split at h
    · next hr =>
      cases h
      exact .inl ⟨rfl, hr⟩
    · cases h
      exact .inr rfl
  · cases h

/-! ### Each write -/

/-- A document is created: a NEED, an effect, an index, or an offer that has its slot. -/
theorem create_write (hs : Bounded D s) (n : ℕ) (hnone : s.docs (D.partitionId body.kind id) = [])
    (hvalid : Valid D ⟨id, 1, body⟩)
    (hticket : D.recordCapacity.isSome = true → Ticketed D s (D.partitionId body.kind id))
    (hslot : ∀ o, body = .offer o → o.directory.isSome = true → o.revoked = false →
      Holds D s o.owner ⟨id, o.fingerprint⟩) :
    Bounded D (s.write n (D.partitionId body.kind id) ⟨id, 1, body⟩) ∧
      (slots D).may s (s.write n (D.partitionId body.kind id) ⟨id, 1, body⟩) := by
  refine bounded_write hs n rfl (fun u hu => ?_) hvalid (fun hcap _ => hticket hcap) hslot ?_
  · rw [hnone] at hu
    cases hu
  · intro owner slot hk hh
    obtain ⟨v, hv, -⟩ := hh
    rw [← hk, hnone] at hv
    cases hv

/-- A document that was there has its ticket. -/
theorem ticketed_next (hs : Bounded D s) (hd : s.docs k = v :: older)
    (hcap : D.recordCapacity.isSome = true) (hkind : k.kind ≠ .capacity) : Ticketed D s k :=
  hs.ticketed hcap k hkind (by rw [hd]; exact List.cons_ne_nil _ _)

theorem ticket_write {ticket : Partition} (hs : Bounded D s)
    (hd : s.docs D.capacityKey = v :: older) (hid : v.doc.logicalId = capacityId)
    (hb : ticketUpdate D ticket v.doc = .ok (some body)) :
    Bounded D (s.write n D.capacityKey ⟨v.doc.logicalId, m, body⟩) ∧
      (slots D).may s (s.write n D.capacityKey ⟨v.doc.logicalId, m, body⟩) := by
  obtain ⟨r, hr, ⟨hnone, -⟩ | ⟨r', hbody, htickets, hnodup, hlen⟩⟩ := ticketUpdate_ok hb
  · cases hnone
  cases hbody
  refine bounded_write hs n ?_ (fun u hu => ?_) ⟨hnodup, hlen⟩ (fun _ hk => absurd rfl hk)
    (fun o ho => by cases ho) (keeps_slots fun h => by cases h)
  · rw [hid]
    rfl
  · rw [hd] at hu
    cases hu
    refine ⟨rfl, ?_⟩
    rw [hr]
    show r.tickets ⊆ r'.tickets
    rw [htickets]
    exact List.subset_append_left _ _

/-- An index is rewritten, and no slot is given up that may be of a live offer. -/
theorem index_write {i i' : OwnerIndex} (hs : Bounded D s)
    (hd : s.docs (D.partitionId .offerOwner owner) = v :: older) (hid : v.doc.logicalId = owner)
    (hi : v.doc.body = .offerOwner i) (hi' : i'.owner = i.owner) (howner : i.owner = owner)
    (hlen : i'.offerSlots.length ≤ 128) (hnodup : (i'.offerSlots.map Slot.id).Nodup)
    (hkeep : ∀ x ∈ i.offerSlots, x ∈ i'.offerSlots ∨ Voided D s owner x) :
    Bounded D (s.write n (D.partitionId .offerOwner owner) ⟨v.doc.logicalId, m, .offerOwner i'⟩) ∧
      (slots D).may s
        (s.write n (D.partitionId .offerOwner owner) ⟨v.doc.logicalId, m, .offerOwner i'⟩) := by
  refine bounded_write hs n (hid ▸ rfl) (fun u hu => ?_)
    ⟨hi'.trans (howner.trans hid.symm), hlen, hnodup⟩ (fun hcap hk => ticketed_next hs hd hcap hk)
    (fun o ho => by cases ho) ?_
  · rw [hd] at hu
    cases hu
    refine ⟨rfl, ?_⟩
    rw [hi]
    exact hi'
  · rintro owner' slot hk ⟨u, hu, huid, hslot⟩
    rw [← hk, hd] at hu
    cases hu
    obtain rfl : owner = owner' := hid.symm.trans huid
    rw [Document.slots, hi] at hslot
    rcases hkeep slot hslot with hmem | hv
    · exact .inl ⟨hid, hmem⟩
    · exact .inr hv

theorem claim_write {c : OfferReservation} (hs : Bounded D s)
    (hd : s.docs (D.partitionId .offerOwner c.owner) = v :: older) (hid : v.doc.logicalId = c.owner)
    (hb : claimUpdate c v.doc = .ok (some body)) :
    Bounded D (s.write n (D.partitionId .offerOwner c.owner) ⟨v.doc.logicalId, m, body⟩) ∧
      (slots D).may s
        (s.write n (D.partitionId .offerOwner c.owner) ⟨v.doc.logicalId, m, body⟩) := by
  obtain ⟨i, hi, howner, ⟨hnone, -⟩ | ⟨hbody, hroom, hnodup⟩⟩ := claimUpdate_ok hb
  · cases hnone
  cases hbody
  refine index_write hs hd hid hi rfl howner ?_ hnodup fun x hx => .inl ?_
  · rw [List.length_append, List.length_singleton]
    omega
  · exact List.mem_append_left _ hx

theorem release_write (hs : Bounded D s) (hvoid : Voided D s owner slot)
    (hd : s.docs (D.partitionId .offerOwner owner) = v :: older) (hid : v.doc.logicalId = owner)
    (hb : releaseUpdate owner slot v.doc = .ok (some body)) :
    Bounded D (s.write n (D.partitionId .offerOwner owner) ⟨v.doc.logicalId, m, body⟩) ∧
      (slots D).may s
        (s.write n (D.partitionId .offerOwner owner) ⟨v.doc.logicalId, m, body⟩) := by
  obtain ⟨i, hi, howner, ⟨hnone, -⟩ | ⟨hbody, hlen, hnodup, hslot⟩⟩ := releaseUpdate_ok hb
  · cases hnone
  cases hbody
  have hsub : (i.offerSlots.filter fun entry => entry.id ≠ slot.id).Sublist i.offerSlots :=
    List.filter_sublist
  refine index_write hs hd hid hi rfl howner (hsub.length_le.trans hlen)
    (hnodup.sublist (hsub.map Slot.id)) fun x hx => ?_
  by_cases hx' : x.id = slot.id
  · obtain rfl : x = slot := List.inj_on_of_nodup_map hnodup hx hslot hx'
    exact .inr hvoid
  · exact .inl (List.mem_filter.mpr ⟨hx, decide_eq_true hx'⟩)

theorem revoke_write (hs : Bounded D s) (hd : s.docs (D.partitionId .offer id) = v :: older)
    (hid : v.doc.logicalId = id) (hb : revokeUpdate owner v.doc = .ok (some body)) :
    Bounded D (s.write n (D.partitionId .offer id) ⟨v.doc.logicalId, m, body⟩) ∧
      (slots D).may s (s.write n (D.partitionId .offer id) ⟨v.doc.logicalId, m, body⟩) := by
  obtain ⟨o, ho, ⟨hnone, -⟩ | hbody⟩ := revokeUpdate_ok hb
  · cases hnone
  cases hbody
  refine bounded_write hs n (hid ▸ rfl) (fun u hu => ?_) trivial
    (fun hcap hk => ticketed_next hs hd hcap hk) (fun o' ho' _ hlive => ?_)
    (keeps_slots fun h => by cases h)
  · rw [hd] at hu
    cases hu
    refine ⟨rfl, ?_⟩
    rw [ho]
    exact ⟨rfl, rfl, rfl, fun _ => rfl⟩
  · cases ho'
    cases hlive

end Truyn.Offers
