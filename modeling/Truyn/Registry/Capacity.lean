import Truyn.Registry.Handlers

/-! registry:capacity | the maps stay within their bounds, and a free slot that is reserved is kept

    A registration is put only where its size was checked in the same segment, and an offer where it
    was counted as pending; so no order of the handlers fills a map over its bound. The free slots that
    are reserved fit beside the nodes as long as no registration that was to replace a stale node takes
    a free place they need. -/

namespace Truyn.Registry

namespace Task

/-- The owner whose lock the handler holds. -/
def locks : Task → Option NodeId
  | .restoring owner _ | .looking owner _ | .reserving owner _ | .revoking owner => some owner
  | .done => none

/-- The owner for whose node the handler has a reservation. -/
def reserves : Task → Option NodeId
  | .restoring _ .kept => none
  | .restoring owner _ => some owner
  | _ => none

def isFree : Task → Bool
  | .restoring _ .free => true
  | _ => false

def isReserving : Task → Bool
  | .reserving _ _ => true
  | _ => false

theorem reserves_of_isFree {t : Task} (h : t.isFree = true) : t.reserves.isSome = true := by
  cases t with
  | restoring owner slot =>
    cases slot with
    | free => rfl
    | kept | evicting => simp [isFree] at h
  | looking | reserving | revoking | done => simp [isFree] at h

theorem locks_of_reserves {t : Task} {owner : NodeId} (h : t.reserves = some owner) :
    t.locks = some owner := by
  cases t with
  | restoring w slot => cases slot <;> simp_all [reserves, locks]
  | looking | reserving | revoking | done => simp [reserves] at h

end Task

namespace Relay

variable {o : Options} {s t : Relay} {owner n : NodeId} {slot : Slot} {i : Input} {task : ℕ}

/-! ### What a segment does to the maps -/

/-- The offers of a registration fit beside those of the other owners. -/
def Fits (o : Options) (s : Relay) (owner : NodeId) (i : Input) : Prop :=
  (s.offers.filter fun f => f.2 ≠ owner).length + i.saved.length + s.pendingOfferReservations ≤
    o.maxOffers

instance : Decidable (s.Fits o owner i) := inferInstanceAs (Decidable (_ ≤ _))

theorem commitStaleNodeEviction_eq (h : s.commitStaleNodeEviction o n i = some t) :
    t = { s.dropOffersOf n with nodes := Maps.delete n s.nodes } ∧
      n ∉ s.ownerLifecycleMutations ∧ ∃ seen, Maps.get s.nodes n = some seen := by
  unfold commitStaleNodeEviction at h
  split at h
  · simp at h
  · next seen hseen =>
    split at h
    · simp at h
    · next hstale =>
      simp only [not_or] at hstale
      exact ⟨(Option.some.inj h).symm, hstale.1, seen, hseen⟩

/-- A registration is refused, enters its node where there is a place for it, or replaces a stale
    node. -/
theorem enroll_cases (o : Options) (s : Relay) (owner : NodeId) (slot : Slot) (i : Input) :
    (∃ a, s.enroll o owner slot i = (s, a) ∧
      (a = .nodeCapacityReached → o.maxNodes ≤ s.nodes.length)) ∨
    (s.enroll o owner slot i = (s.enter owner i, .ok) ∧ i.fails = false ∧ s.Fits o owner i ∧
      (s.hasNode owner = true ∨ s.nodes.length < o.maxNodes)) ∨
    (∃ m t, slot = .evicting m ∧ s.commitStaleNodeEviction o m i = some t ∧
      s.enroll o owner slot i = (t.enter owner i, .ok) ∧ s.Fits o owner i) := by
  unfold enroll
  split
  · exact .inl ⟨_, rfl, by simp⟩
  next hfails =>
  split
  · exact .inl ⟨_, rfl, by simp⟩
  next hfits =>
  have hfits : s.Fits o owner i := not_lt.mp hfits
  split
  · next hfull =>
    split
    · split
      · next t ht => exact .inr (.inr ⟨_, t, rfl, ht, rfl, hfits⟩)
      · exact .inl ⟨_, rfl, fun _ => hfull.2⟩
    · exact .inl ⟨_, rfl, fun _ => hfull.2⟩
  · next hroom =>
    refine .inr (.inl ⟨rfl, by simpa using hfails, hfits, ?_⟩)
    cases hhas : s.hasNode owner with
    | true => exact .inl rfl
    | false => exact .inr (by simpa [hhas] using hroom)

theorem seen_length (h : s.hasNode n = true) (now : ℕ) :
    (Maps.set n now s.nodes).length = s.nodes.length := by
  rw [Maps.length_set]
  exact if_pos h

theorem putOffers_length (m : List (OfferId × NodeId)) (ids : List OfferId) :
    (ids.foldl (fun m id => Maps.set id owner m) m).length ≤ m.length + ids.length := by
  induction ids generalizing m with
  | nil => simp
  | cons id ids ih =>
    have hset := Maps.length_set (m := m) (k := id) (a := owner)
    have hrest := ih (Maps.set id owner m)
    simp only [List.foldl_cons, List.length_cons]
    split at hset <;> omega

theorem enter_offers :
    (s.enter owner i).offers.length ≤
      (s.offers.filter fun f => f.2 ≠ owner).length + i.saved.length :=
  putOffers_length _ i.saved

theorem enter_nodes : (s.enter owner i).nodes = Maps.set owner i.now s.nodes := rfl

/-- What a registration leaves alone while it enters or is refused. -/
theorem enroll_keeps (o : Options) (s : Relay) (owner : NodeId) (slot : Slot) (i : Input) :
    (s.enroll o owner slot i).1.tasks = s.tasks ∧
    (s.enroll o owner slot i).1.ownerLifecycleMutations = s.ownerLifecycleMutations ∧
    (s.enroll o owner slot i).1.pendingNodeReservations = s.pendingNodeReservations ∧
    (s.enroll o owner slot i).1.pendingOfferReservations = s.pendingOfferReservations ∧
    (s.enroll o owner slot i).1.answers = s.answers := by
  rcases enroll_cases o s owner slot i with
    ⟨a, h, -⟩ | ⟨h, -⟩ | ⟨m, t, -, ht, h, -⟩
  · rw [h]
    exact ⟨rfl, rfl, rfl, rfl, rfl⟩
  · rw [h]
    exact ⟨rfl, rfl, rfl, rfl, rfl⟩
  · rw [h, (commitStaleNodeEviction_eq ht).1]
    exact ⟨rfl, rfl, rfl, rfl, rfl⟩

/-! ### The bounds -/

/-- Each map is within its bound, the pending offers counted. -/
structure Bounded (o : Options) (s : Relay) : Prop where
  nodes : s.nodes.length ≤ o.maxNodes
  offers : s.offers.length + s.pendingOfferReservations ≤ o.maxOffers
  pending : Leases.Counted (fun t (_ : Unit) => t.isReserving) s.tasks
    fun _ => s.pendingOfferReservations

theorem Bounded.start : Bounded o .start := ⟨Nat.zero_le _, Nat.zero_le _, fun _ => rfl⟩

theorem Bounded.answer (h : Bounded o s) {a : Answer} : Bounded o (s.answer owner slot a) :=
  ⟨h.nodes, h.offers, h.pending⟩

theorem Bounded.await (h : Bounded o s) {t : Task} (ht : t.isReserving = false) :
    Bounded o (s.await t) :=
  ⟨h.nodes, h.offers, h.pending.concat fun _ => ht⟩

theorem Bounded.finish (h : Bounded o s) {t : Task} (ht : s.tasks[task]? = some t)
    (hr : t.isReserving = false) : Bounded o (s.finish task owner) :=
  ⟨h.nodes, h.offers, h.pending.set ht fun _ => by rw [hr]; rfl⟩

theorem Bounded.enter (h : Bounded o s) (hfits : s.Fits o owner i)
    (hroom : s.hasNode owner = true ∨ s.nodes.length < o.maxNodes) :
    Bounded o (s.enter owner i) where
  nodes := by
    rw [enter_nodes]
    rcases hroom with hhas | hlt
    · rw [seen_length hhas]
      exact h.nodes
    · rw [Maps.length_set]
      split <;> omega
  offers := (Nat.add_le_add_right enter_offers _).trans hfits
  pending := h.pending

theorem Bounded.evict (h : Bounded o s) (ht : s.commitStaleNodeEviction o n i = some t) :
    Bounded o t ∧ t.nodes.length < s.nodes.length := by
  obtain ⟨rfl, -, seen, hseen⟩ := commitStaleNodeEviction_eq ht
  have hlt := Maps.length_delete_lt hseen
  have hoffers : (s.offers.filter fun f => f.2 ≠ n).length ≤ s.offers.length :=
    List.length_filter_le _ _
  refine ⟨⟨?_, ?_, h.pending⟩, hlt⟩
  · exact hlt.le.trans h.nodes
  · exact (Nat.add_le_add_right hoffers _).trans h.offers

theorem Fits.evict (h : s.Fits o owner i) (ht : s.commitStaleNodeEviction o n i = some t) :
    t.Fits o owner i := by
  obtain ⟨rfl, -⟩ := commitStaleNodeEviction_eq ht
  have hle : ((s.offers.filter fun f => f.2 ≠ n).filter fun f => f.2 ≠ owner).length ≤
      (s.offers.filter fun f => f.2 ≠ owner).length :=
    (List.filter_sublist.filter _).length_le
  unfold Fits at h ⊢
  simp only [dropOffersOf]
  omega

theorem Bounded.enroll (h : Bounded o s) : Bounded o (s.enroll o owner slot i).1 := by
  rcases enroll_cases o s owner slot i with
    ⟨a, heq, -⟩ | ⟨heq, -, hfits, hroom⟩ | ⟨m, t, -, ht, heq, hfits⟩
  · rw [heq]
    exact h
  · rw [heq]
    exact h.enter hfits hroom
  · rw [heq]
    obtain ⟨hbounded, hlt⟩ := h.evict ht
    exact hbounded.enter (hfits.evict ht) (.inr (hlt.trans_le h.nodes))

theorem Bounded.unreserve (h : Bounded o s) : Bounded o (s.unreserve owner slot) := by
  cases slot <;> exact ⟨h.nodes, h.offers, h.pending⟩

theorem Bounded.reserve (h : Bounded o s) : Bounded o (s.reserve owner slot) := by
  cases slot <;> exact ⟨h.nodes, h.offers, h.pending⟩

theorem Bounded.lock (h : Bounded o s) : Bounded o (s.lock owner) := ⟨h.nodes, h.offers, h.pending⟩

theorem Bounded.reserveOffer (h : Bounded o s) {id : OfferId}
    (ht : s.tasks[task]? = some (.looking owner id)) :
    Bounded o (s.reserveOffer o task owner id i) := by
  have hend : ∀ a, Bounded o ((s.finish task owner).answer owner .kept a) := fun a =>
    (h.finish ht rfl).answer
  unfold Relay.reserveOffer
  split
  · exact hend _
  split
  · exact hend _
  split
  · exact hend _
  next hroom =>
  refine ⟨h.nodes, ?_, h.pending.set ht fun _ => rfl⟩
  dsimp only
  omega

/-- The pending offer that ends was counted, so there is a place for it. -/
theorem Bounded.putOffer (h : Bounded o s) {id : OfferId}
    (ht : s.tasks[task]? = some (.reserving owner id)) :
    Bounded o (s.putOffer task owner id i) := by
  have hpos : 0 < s.pendingOfferReservations :=
    h.pending.pos (k := ()) (List.mem_of_getElem? ht) rfl
  have hpending : Leases.Counted (fun t (_ : Unit) => t.isReserving) (s.tasks.set task .done)
      fun _ => s.pendingOfferReservations - 1 :=
    h.pending.set ht fun _ => by simp [Task.isReserving]; omega
  have hoffers := h.offers
  unfold Relay.putOffer
  split
  · refine ⟨h.nodes, ?_, hpending⟩
    simp only [Relay.answer, Relay.finish]
    omega
  · refine ⟨h.nodes, ?_, hpending⟩
    have hset := Maps.length_set (m := s.offers) (k := id) (a := owner)
    simp only [Relay.answer, Relay.finish]
    rw [hset]
    split <;> omega

theorem Bounded.goOn (h : Bounded o s) {t : Task} (ht : s.tasks[task]? = some t) :
    Bounded o (s.goOn o task i t) := by
  cases t with
  | restoring owner slot =>
    have hbounded : Bounded o ((s.enroll o owner slot i).1.unreserve owner slot) := h.enroll.unreserve
    have htasks : ((s.enroll o owner slot i).1.unreserve owner slot).tasks = s.tasks := by
      rw [← (enroll_keeps o s owner slot i).1]
      cases slot <;> rfl
    exact (hbounded.finish (htasks ▸ ht) rfl).answer
  | looking owner id => exact h.reserveOffer ht
  | reserving owner id => exact h.putOffer ht
  | revoking owner => exact h.finish ht rfl
  | done => exact h

theorem Bounded.step (h : Bounded o s) (e : Event) : Bounded o (s.step o e) := by
  cases e with
  | register owner i =>
    simp only [Relay.step, Relay.register]
    split
    · exact h.answer
    split
    · exact h.answer
    · exact h.lock.reserve.await rfl
  | offer owner id i =>
    simp only [Relay.step, Relay.lookOffer]
    split
    · exact h.answer
    split
    · exact h.answer
    · exact h.lock.await rfl
  | revoke owner =>
    simp only [Relay.step]
    split
    · exact h.answer
    · exact h.lock.await rfl
  | touch n now =>
    simp only [Relay.step]
    split
    · next hhas =>
      exact ⟨(seen_length hhas now).trans_le h.nodes, h.offers, h.pending⟩
    · exact h
  | resume task i =>
    simp only [Relay.step]
    split
    · next t ht => exact h.goOn ht
    · exact h

theorem Bounded.run (es : List Event) : Bounded o (run o es) := by
  induction es using List.reverseRecOn with
  | nil => exact .start
  | append_singleton es e ih =>
    rw [Registry.run, List.foldl_append]
    exact ih.step e

/-! ### The free slots -/

def freeSlots (s : Relay) : ℕ := s.tasks.countP Task.isFree

/-- A registration that was to replace a stale node and takes a free place instead leaves enough for
    the free slots that are reserved. -/
def leavesRoom (o : Options) (s : Relay) : Event → Bool
  | .resume task i =>
    match s.tasks[task]? with
    | some (.restoring owner (.evicting _)) =>
      i.fails || !decide (s.Fits o owner i) || s.hasNode owner ||
        decide (o.maxNodes ≤ s.nodes.length) || decide (s.nodes.length + s.freeSlots < o.maxNodes)
    | _ => true
  | _ => true

/-- The locks and the reservations are those of the handlers, and there is room for the free slots. -/
structure Reserved (o : Options) (s : Relay) : Prop where
  locked : Leases.Counted (fun t k => t.locks == some k) s.tasks
    fun k => s.ownerLifecycleMutations.count k
  nodup : s.ownerLifecycleMutations.Nodup
  reserved : Leases.Counted (fun t k => t.reserves == some k) s.tasks
    fun k => s.pendingNodeReservations.count k
  kept : ∀ owner, .restoring owner .kept ∈ s.tasks → s.hasNode owner = true
  room : s.nodes.length + s.freeSlots ≤ o.maxNodes
  granted : ∀ owner, (owner, .free, .nodeCapacityReached) ∉ s.answers

theorem Reserved.start : Reserved o .start where
  locked := .nil
  nodup := List.nodup_nil
  reserved := .nil
  kept := fun _ h => by simp [Relay.start] at h
  room := Nat.zero_le _
  granted := fun _ h => by simp [Relay.start] at h

theorem Reserved.answer (h : Reserved o s) {a : Answer}
    (hne : slot = .free → a ≠ .nodeCapacityReached) : Reserved o (s.answer owner slot a) where
  __ := h
  granted := by
    intro w hw
    rcases List.mem_append.mp hw with hold | hnew
    · exact h.granted w hold
    · simp only [List.mem_singleton, Prod.mk.injEq] at hnew
      exact hne hnew.2.1.symm hnew.2.2.symm

theorem Reserved.mem_locked (h : Reserved o s) {t : Task} (ht : t ∈ s.tasks)
    (hlocks : t.locks = some owner) : owner ∈ s.ownerLifecycleMutations := by
  have hpos := h.locked.pos (k := owner) ht (by simp [hlocks])
  exact List.count_pos_iff.mp hpos

/-- Whoever has a reservation has one. -/
theorem Reserved.count_pending (h : Reserved o s) {t : Task} (ht : t ∈ s.tasks)
    (hres : t.reserves = some owner) : s.pendingNodeReservations.count owner = 1 := by
  have hpos : 0 < s.pendingNodeReservations.count owner :=
    h.reserved.pos (k := owner) ht (by simp [hres])
  have hlock : s.ownerLifecycleMutations.count owner ≤ 1 :=
    List.nodup_iff_count_le_one.mp h.nodup owner
  have hlocked : s.ownerLifecycleMutations.count owner =
      s.tasks.countP fun t => t.locks == some owner := h.locked owner
  have hreserved : s.pendingNodeReservations.count owner =
      s.tasks.countP fun t => t.reserves == some owner := h.reserved owner
  have hle : s.tasks.countP (fun t => t.reserves == some owner) ≤
      s.tasks.countP fun t => t.locks == some owner := by
    refine List.countP_mono_left fun u _ hu => ?_
    simp only [beq_iff_eq] at hu ⊢
    exact Task.locks_of_reserves hu
  omega

theorem Reserved.free_le (h : Reserved o s) : s.freeSlots ≤ s.pendingNodeReservations.length := by
  rw [← h.reserved.length]
  exact List.countP_mono_left fun t _ ht => Task.reserves_of_isFree ht

theorem count_filter_ne {l : List NodeId} {a : NodeId} (h : l.count a = 1) (k : NodeId) :
    (l.filter (· ≠ a)).count k + (some a == some k).toNat = l.count k := by
  by_cases hk : k = a
  · subst hk
    have hnone : (l.filter (· ≠ k)).count k = 0 := List.count_eq_zero.mpr (by simp)
    rw [hnone, h]
    simp
  · have hne : (some a == some k) = false := by simpa using fun heq => hk heq.symm
    rw [hne, List.count_filter (by simpa using hk)]
    rfl

/-- A handler takes the lock of its owner, with a reservation or without, and awaits. -/
theorem Reserved.begin (h : Reserved o s) (hfree : owner ∉ s.ownerLifecycleMutations) {t : Task}
    {pend evict : List NodeId} (hlocks : t.locks = some owner)
    (hpend : ∀ k, pend.count k = s.pendingNodeReservations.count k + (t.reserves == some k).toNat)
    (hkept : ∀ w, t = .restoring w .kept → s.hasNode w = true)
    (hroom : s.nodes.length + s.freeSlots + t.isFree.toNat ≤ o.maxNodes) :
    Reserved o ({ s.lock owner with
      pendingNodeReservations := pend
      pendingEvictionNodeIds := evict }.await t) where
  locked := h.locked.push fun k => by
    simp only [Relay.await, lock, List.count_append, List.count_singleton, hlocks]
    by_cases hk : owner = k <;> simp [hk]
  nodup := List.nodup_append.mpr ⟨h.nodup, List.nodup_singleton owner, by
    rintro x hx y hy rfl
    exact hfree (List.mem_singleton.mp hy ▸ hx)⟩
  reserved := h.reserved.push hpend
  kept := by
    intro w hw
    rcases List.mem_append.mp hw with hold | hnew
    · exact h.kept w hold
    · exact hkept w (List.mem_singleton.mp hnew).symm
  room := by
    have hcount : (s.tasks ++ [t]).countP Task.isFree = s.freeSlots + t.isFree.toNat := by
      rw [List.countP_append, freeSlots]
      cases hfree : t.isFree <;> simp [hfree]
    simp only [freeSlots, Relay.await, lock] at hcount hroom ⊢
    omega
  granted := h.granted

/-- A handler ends, with what it has done to the nodes, and gives back its lock and its
    reservation. -/
theorem Reserved.finish (h : Reserved o s) {t : Task} {s' : Relay} (ht : s.tasks[task]? = some t)
    (hlocks : t.locks = some owner) (htasks : s'.tasks = s.tasks)
    (hlocked : s'.ownerLifecycleMutations = s.ownerLifecycleMutations)
    (hpend : ∀ k, s'.pendingNodeReservations.count k + (t.reserves == some k).toNat =
      s.pendingNodeReservations.count k)
    (hkept : ∀ w ∈ s.ownerLifecycleMutations, s.hasNode w = true → s'.hasNode w = true)
    (hroom : s'.nodes.length + s.freeSlots ≤ o.maxNodes + t.isFree.toNat)
    (hanswers : s'.answers = s.answers) : Reserved o (s'.finish task owner) where
  locked := by
    have hmem : owner ∈ s.ownerLifecycleMutations :=
      h.mem_locked (List.mem_of_getElem? ht) hlocks
    simp only [Relay.finish, htasks, hlocked]
    refine h.locked.set ht fun k => ?_
    rw [hlocks]
    exact count_filter_ne (List.count_eq_one_of_mem h.nodup hmem) k
  nodup := by
    simp only [Relay.finish, hlocked]
    exact h.nodup.filter _
  reserved := by
    simp only [Relay.finish, htasks]
    exact h.reserved.set ht hpend
  kept := by
    intro w hw
    simp only [Relay.finish, htasks] at hw
    rcases List.mem_or_eq_of_mem_set hw with hold | hnew
    · exact hkept w (h.mem_locked hold rfl) (h.kept w hold)
    · simp at hnew
  room := by
    have hset := Leases.countP_set (p := Task.isFree) (b := .done) ht
    have hdone : Task.isFree .done = false := rfl
    simp only [freeSlots, Relay.finish, htasks, hdone, Bool.toNat_false] at hset hroom ⊢
    omega
  granted := hanswers ▸ h.granted

theorem enter_hasNode {w : NodeId} (h : s.hasNode w = true) :
    (s.enter owner i).hasNode w = true := by
  rw [hasNode, enter_nodes, Maps.get_set]
  split
  · rfl
  · exact h

/-- The node of an owner who holds his lock is not evicted. -/
theorem enroll_hasNode {w : NodeId} (hw : w ∈ s.ownerLifecycleMutations)
    (h : s.hasNode w = true) : (s.enroll o owner slot i).1.hasNode w = true := by
  rcases enroll_cases o s owner slot i with
    ⟨a, heq, -⟩ | ⟨heq, -⟩ | ⟨m, t, -, ht, heq, -⟩
  · rw [heq]
    exact h
  · rw [heq]
    exact enter_hasNode h
  · obtain ⟨rfl, hm, -⟩ := commitStaleNodeEviction_eq ht
    have hne : m ≠ w := fun hmw => hm (hmw ▸ hw)
    rw [heq]
    refine enter_hasNode ?_
    rw [hasNode, Maps.get_delete_ne hne]
    exact h

theorem Reserved.enroll_room (h : Reserved o s)
    (ht : s.tasks[task]? = some (.restoring owner slot))
    (hleaves : s.leavesRoom o (.resume task i) = true) :
    (s.enroll o owner slot i).1.nodes.length + s.freeSlots ≤
      o.maxNodes + (Task.restoring owner slot).isFree.toNat := by
  have hroom := h.room
  have hset := Maps.length_set (m := s.nodes) (k := owner) (a := i.now)
  rcases enroll_cases o s owner slot i with
    ⟨a, heq, -⟩ | ⟨heq, hfails, hfits, hplace⟩ | ⟨m, t, -, hevict, heq, -⟩
  · rw [heq]
    dsimp only
    omega
  · rw [heq]
    dsimp only
    rw [enter_nodes]
    cases hhas : s.hasNode owner with
    | true =>
      rw [seen_length hhas]
      omega
    | false =>
      have hlt : s.nodes.length < o.maxNodes := hplace.resolve_left (by simp [hhas])
      cases slot with
      | kept =>
        rw [h.kept owner (List.mem_of_getElem? ht)] at hhas
        simp at hhas
      | free =>
        simp only [Task.isFree, Bool.toNat_true]
        split at hset <;> omega
      | evicting n =>
        have hfree : s.nodes.length + s.freeSlots < o.maxNodes := by
          simpa [leavesRoom, ht, hfails, hfits, hhas, Nat.not_le.mpr hlt] using hleaves
        split at hset <;> omega
  · rw [heq]
    dsimp only
    obtain ⟨rfl, -, seen, hseen⟩ := commitStaleNodeEviction_eq hevict
    have hlt := Maps.length_delete_lt hseen
    rw [enter_nodes, Maps.length_set]
    dsimp only
    split <;> omega

/-- The reservation of a handler is given back. -/
theorem Reserved.unreserve_count (h : Reserved o s) (ht : .restoring owner slot ∈ s.tasks)
    (hpend : t.pendingNodeReservations = s.pendingNodeReservations) (k : NodeId) :
    (t.unreserve owner slot).pendingNodeReservations.count k +
      ((Task.restoring owner slot).reserves == some k).toNat =
        s.pendingNodeReservations.count k := by
  rw [← hpend]
  cases slot with
  | kept => rfl
  | free => exact count_filter_ne (hpend ▸ h.count_pending ht rfl) k
  | evicting n => exact count_filter_ne (hpend ▸ h.count_pending ht rfl) k

theorem Reserved.restore (h : Reserved o s)
    (ht : s.tasks[task]? = some (.restoring owner slot))
    (hleaves : s.leavesRoom o (.resume task i) = true) :
    Reserved o (s.goOn o task i (.restoring owner slot)) := by
  have hmem : .restoring owner slot ∈ s.tasks := List.mem_of_getElem? ht
  obtain ⟨htasks, hlocked, hpend, -, hanswers⟩ := enroll_keeps o s owner slot i
  have hend : Reserved o (((s.enroll o owner slot i).1.unreserve owner slot).finish task owner) := by
    refine h.finish ht rfl ?_ ?_ (h.unreserve_count hmem hpend) (fun w hw hhas => ?_) ?_ ?_
    · exact (by cases slot <;> rfl : _ = (s.enroll o owner slot i).1.tasks).trans htasks
    · exact (by cases slot <;> rfl : _ = (s.enroll o owner slot i).1.ownerLifecycleMutations).trans
        hlocked
    · have hnode : (s.enroll o owner slot i).1.hasNode w = true := enroll_hasNode hw hhas
      cases slot <;> exact hnode
    · have hroom := h.enroll_room ht hleaves
      cases slot <;> exact hroom
    · exact (by cases slot <;> rfl : _ = (s.enroll o owner slot i).1.answers).trans hanswers
  refine hend.answer fun hslot hans => ?_
  -- The free slot has its place, so the registration is not the one that finds none.
  subst hslot
  have hroom := h.room
  have hpos : 0 < s.freeSlots := List.countP_pos_iff.mpr ⟨_, hmem, rfl⟩
  rcases enroll_cases o s owner .free i with
    ⟨a, heq, hfull⟩ | ⟨heq, -⟩ | ⟨m, t, hslot, -⟩
  · rw [heq] at hans
    have := hfull hans
    omega
  · rw [heq] at hans
    simp at hans
  · simp at hslot

/-- The other ends of a handler change no node and no reservation. -/
theorem Reserved.ends (h : Reserved o s) {t : Task} (ht : s.tasks[task]? = some t)
    (hlocks : t.locks = some owner) (hres : t.reserves = none) (hfree : t.isFree = false) :
    Reserved o (s.finish task owner) := by
  refine h.finish ht hlocks rfl rfl (fun k => ?_) (fun _ _ hw => hw) ?_ rfl
  · rw [hres]
    rfl
  · rw [hfree]
    exact h.room

theorem Reserved.reserveOffer (h : Reserved o s) {id : OfferId}
    (ht : s.tasks[task]? = some (.looking owner id)) :
    Reserved o (s.reserveOffer o task owner id i) := by
  have hend : ∀ a, Reserved o ((s.finish task owner).answer owner .kept a) := fun a =>
    (h.ends ht rfl rfl rfl).answer (by simp)
  unfold Relay.reserveOffer
  split
  · exact hend _
  split
  · exact hend _
  split
  · exact hend _
  exact
    { locked := h.locked.set ht fun k => rfl
      nodup := h.nodup
      reserved := h.reserved.set ht fun k => rfl
      kept := fun w hw => by
        rcases List.mem_or_eq_of_mem_set hw with hold | hnew
        · exact h.kept w hold
        · simp at hnew
      room := by
        have hset := Leases.countP_set (p := Task.isFree) (b := .reserving owner id) ht
        have hroom := h.room
        simp only [freeSlots, Task.isFree, Bool.toNat_false] at hset hroom ⊢
        omega
      granted := h.granted }

theorem Reserved.goOn (h : Reserved o s) {t : Task} (ht : s.tasks[task]? = some t)
    (hleaves : s.leavesRoom o (.resume task i) = true) : Reserved o (s.goOn o task i t) := by
  cases t with
  | restoring owner slot => exact h.restore ht hleaves
  | looking owner id => exact h.reserveOffer ht
  | reserving owner id =>
    have hend : ∀ a, Reserved o ((s.finish task owner).answer owner .kept a) := fun a =>
      (h.ends ht rfl rfl rfl).answer (by simp)
    have hfailed := hend .failed
    have hok := hend .ok
    simp only [Relay.goOn, Relay.putOffer]
    split
    · exact { hfailed with }
    · exact { hok with }
  | revoking owner => exact h.ends ht rfl rfl rfl
  | done => exact h

/-- A registration starts with the slot it found. -/
theorem Reserved.registers (h : Reserved o s) (hlock : owner ∉ s.ownerLifecycleMutations)
    (hslot : s.reserveSlot o owner i = some slot) :
    Reserved o (((s.lock owner).reserve owner slot).await (.restoring owner slot)) := by
  have hroom := h.room
  have hfree := h.free_le
  have hcount : ∀ k, (s.pendingNodeReservations ++ [owner]).count k =
      s.pendingNodeReservations.count k + (some owner == some k).toNat := fun k => by
    rw [List.count_append, List.count_singleton]
    by_cases hk : owner = k <;> simp [hk]
  unfold reserveSlot at hslot
  split at hslot
  · next hhas =>
    cases hslot
    refine h.begin hlock rfl (fun k => rfl) (fun w hw => ?_) hroom
    obtain rfl : owner = w := by simpa using hw
    exact hhas
  split at hslot
  · next hplace =>
    cases hslot
    refine h.begin hlock rfl hcount (fun w hw => by simp at hw) ?_
    simp only [Task.isFree, Bool.toNat_true]
    omega
  · obtain ⟨n, -, rfl⟩ := Option.map_eq_some_iff.mp hslot
    exact h.begin hlock rfl hcount (fun w hw => by simp at hw) hroom

theorem Reserved.step (h : Reserved o s) (e : Event) (hleaves : s.leavesRoom o e = true) :
    Reserved o (s.step o e) := by
  have hroom := h.room
  cases e with
  | register owner i =>
    simp only [Relay.step, Relay.register]
    split
    · exact h.answer (by simp)
    next hlock =>
    split
    · exact h.answer (by simp)
    · next slot hslot => exact h.registers hlock hslot
  | offer owner id i =>
    simp only [Relay.step, Relay.lookOffer]
    split
    · exact h.answer (by simp)
    next hlock =>
    split
    · exact h.answer (by simp)
    · exact h.begin hlock rfl (fun k => rfl) (fun w hw => by simp at hw) hroom
  | revoke owner =>
    simp only [Relay.step]
    split
    · exact h.answer (by simp)
    · next hlock => exact h.begin hlock rfl (fun k => rfl) (fun w hw => by simp at hw) hroom
  | touch n now =>
    simp only [Relay.step]
    split
    · next hhas =>
      refine { h with kept := fun w hw => ?_, room := ?_ }
      · rw [hasNode, Maps.get_set]
        split
        · rfl
        · exact h.kept w hw
      · exact (congrArg (· + s.freeSlots) (seen_length hhas now)).trans_le hroom
    · exact h
  | resume task i =>
    simp only [Relay.step]
    split
    · next t ht => exact h.goOn ht hleaves
    · exact h

end Relay

/-- In every order of the handlers each map is within its bound, and where those that were to replace
    a stale node leave room, a free slot that was reserved is not refused. -/
theorem capacity (o : Options) (es : List Event) :
    ((run o es).nodes.length ≤ o.maxNodes ∧
      (run o es).offers.length + (run o es).pendingOfferReservations ≤ o.maxOffers) ∧
    (Runs.Along (Relay.step o) (fun s e => s.leavesRoom o e = true) .start es →
      ∀ owner, (owner, .free, .nodeCapacityReached) ∉ (run o es).answers) := by
  have hbounded := Relay.Bounded.run (o := o) es
  refine ⟨⟨hbounded.nodes, hbounded.offers⟩, fun hleaves => ?_⟩
  exact (Runs.Along.keeps Relay.Reserved.start (fun s e hs he => hs.step e he) hleaves).granted

/-! ### Two registrations for one place -/

def two : Options := ⟨2, 1, 10⟩

def clear (now : ℕ) : Input := ⟨now, fun _ => false, false, [], false⟩

/-- One node is there and stale; then a free slot is reserved, and the stale node after it. -/
def contended : List Event :=
  [.register (js "old") (clear 0), .resume 0 (clear 0),
    .register (js "first") (clear 100), .register (js "second") (clear 100)]

theorem capacity_contended :
    (js "first", .free, .nodeCapacityReached) ∉
      (run two (contended ++ [.resume 1 (clear 100), .resume 2 (clear 100)])).answers :=
  (capacity two _).2 (by decide) _

/-- The second goes on first and takes the free place, and the first is refused. -/
theorem second_takes_free :
    (js "first", .free, .nodeCapacityReached) ∈
      (run two (contended ++ [.resume 2 (clear 100), .resume 1 (clear 100)])).answers := by
  decide

end Truyn.Registry
