import Truyn.Js.Sets
import Truyn.Js.Numerals
import Truyn.Schemes.Leases

/-! replication:put | a quorum write, one segment after the other

    `DhtReplicationManager.put` looks up the keyspace, stores the record locally and then keeps as
    many remote stores in flight as are needed to reach the replication factor. An answer is counted in
    one microtask and its slot given back in a later one; a grace timer, the deadline, or the end of
    the candidates closes the placement, and the call goes on after that. -/

namespace Truyn.Replication

abbrev NodeId := JsString

/-- Options that `put` accepts, with the id of the node itself. -/
structure Options where
  self : NodeId
  replicationFactor : ℕ
  minAcks : ℕ
  timeoutMs : ℕ
  quorumGraceMs : ℕ
  factor_pos : 1 ≤ replicationFactor
  acks_pos : 1 ≤ minAcks
  acks_le : minAcks ≤ replicationFactor
  timeout_range : 100 ≤ timeoutMs ∧ timeoutMs ≤ 120000

/-- How a remote store is answered. -/
inductive Reply
  | stored
  | notStored
  | failed (message : JsString)

/-- A remote store: in flight, counted, or with its slot given back. -/
inductive Status
  | asked
  | answered (ok : Bool)
  | closed (ok : Bool)

structure Store where
  peer : NodeId
  status : Status

inductive Timer
  | unset
  | armed
  | over
  deriving DecidableEq

inductive Place
  /-- awaits the lookup -/
  | looking
  /-- awaits the placement -/
  | placing
  /-- the placement is closed -/
  | finished
  | ended
  deriving DecidableEq

inductive Outcome
  | stored (acknowledgements : ℕ) (storedAt : List NodeId) (failures : List (NodeId × JsString))
  | timeout
  | quorum (acknowledgements : ℕ) (failures : List (NodeId × JsString))

/-- `stores` are the peers that were asked, in this order. `accepted` is that the local store accepted
    the record, and `late` that the deadline timer has fired or the clock was read at the deadline. -/
structure Write where
  place : Place
  accepted : Bool
  acknowledgements : ℕ
  storedAt : List NodeId
  failures : List (NodeId × JsString)
  candidates : List NodeId
  stores : List Store
  inFlight : ℕ
  graceTimer : Timer
  deadlineTimer : Timer
  placementTimedOut : Bool
  late : Bool
  outcomes : List Outcome

def start : Write :=
  ⟨.looking, false, 0, [], [], [], [], 0, .unset, .unset, false, false, []⟩

inductive Event
  /-- The lookup is over: the clock, what the local store answers, and the closest peers. -/
  | lookedUp (late accepted : Bool) (closest : List NodeId)
  | answer (store : ℕ) (reply : Reply)
  | settle (store : ℕ)
  | grace
  | deadline
  | resume (late : Bool)

/-- The closest peers with an id, each once, without the node itself. -/
def candidatesOf (self : NodeId) (closest : List NodeId) : List NodeId :=
  (setOf (closest.filter (· ≠ []))).filter (· ≠ self)

variable (o : Options) (s : Write)

namespace Write

def fail (outcome : Outcome) (late : Bool) : Write :=
  { s with place := .ended, late := s.late || late, outcomes := s.outcomes ++ [outcome] }

/-- Both timers are cleared. -/
def finish : Write :=
  if s.place = .placing then { s with place := .finished, graceTimer := .over, deadlineTimer := .over }
  else s

/-- Stores are sent as long as there are free slots. -/
def launch : List NodeId → Write → Write
  | [], s => s
  | peer :: rest, s =>
    if s.inFlight + s.storedAt.length < o.replicationFactor then
      launch rest { s with stores := s.stores ++ [⟨peer, .asked⟩], inFlight := s.inFlight + 1 }
    else s

def pump : Write :=
  if s.place ≠ .placing then s
  else if o.replicationFactor ≤ s.storedAt.length then s.finish
  else
    let graceTimer :=
      if o.minAcks ≤ s.acknowledgements ∧ s.graceTimer = .unset then .armed else s.graceTimer
    let s := launch o (s.candidates.drop s.stores.length) { s with graceTimer := graceTimer }
    if s.inFlight = 0 ∧ s.candidates.length ≤ s.stores.length then s.finish else s

def lookedUp (late accepted : Bool) (closest : List NodeId) : Write :=
  if s.place ≠ .looking then s
  else if late then s.fail .timeout true
  else
    pump o { s with
      place := .placing
      accepted := accepted
      acknowledgements := if accepted then 1 else 0
      storedAt := if accepted then [o.self] else []
      candidates := candidatesOf o.self closest
      deadlineTimer := .armed }

def answer (store : ℕ) (reply : Reply) : Write :=
  match s.stores[store]? with
  | some ⟨peer, .asked⟩ =>
    match reply with
    | .stored =>
      { s with
        acknowledgements := s.acknowledgements + 1
        storedAt := if peer ∈ s.storedAt then s.storedAt else s.storedAt ++ [peer]
        stores := s.stores.set store ⟨peer, .answered true⟩ }
    | .notStored =>
      { s with
        failures := s.failures ++ [(peer, js "dht_store_not_stored")]
        stores := s.stores.set store ⟨peer, .answered false⟩ }
    | .failed message =>
      { s with
        failures := s.failures ++
          [(peer, if message = [] then js "dht_store_failed" else message)]
        stores := s.stores.set store ⟨peer, .answered false⟩ }
  | _ => s

def settle (store : ℕ) : Write :=
  match s.stores[store]? with
  | some ⟨peer, .answered ok⟩ =>
    pump o { s with
      inFlight := s.inFlight - 1
      stores := s.stores.set store ⟨peer, .closed ok⟩ }
  | _ => s

def deadline : Write :=
  if s.deadlineTimer = .armed then
    finish { s with
      late := true
      placementTimedOut := s.placementTimedOut || decide (s.acknowledgements < o.minAcks) }
  else s

def resume (late : Bool) : Write :=
  if s.place ≠ .finished then s
  else if s.acknowledgements < o.minAcks then
    if s.placementTimedOut || late then s.fail .timeout late
    else s.fail (.quorum s.acknowledgements s.failures) late
  else
    { s with
      place := .ended
      outcomes := s.outcomes ++ [.stored s.acknowledgements s.storedAt s.failures] }

def step : Event → Write
  | .lookedUp late accepted closest => s.lookedUp o late accepted closest
  | .answer store reply => s.answer store reply
  | .settle store => s.settle o store
  | .grace => if s.graceTimer = .armed then s.finish else s
  | .deadline => s.deadline o
  | .resume late => s.resume o late

def run (es : List Event) : Write := es.foldl (step o) start

end Write

/-! ### What put promises -/

def Status.inFlight : Status → Bool
  | .asked => true
  | _ => false

def Status.open : Status → Bool
  | .closed _ => false
  | _ => true

def Status.ok : Status → Bool
  | .answered ok => ok
  | .closed ok => ok
  | .asked => false

def Store.inFlight (c : Store) : Bool := c.status.inFlight

def Store.open (c : Store) : Bool := c.status.open

namespace Write

/-- The node acknowledged the record: the local store accepted it, or a remote store has answered. -/
def Acknowledged (node : NodeId) : Prop :=
  (node = o.self ∧ s.accepted = true) ∨ ∃ c ∈ s.stores, c.peer = node ∧ c.status.ok = true

/-- All candidates were asked, and have answered. -/
def Tried : Prop :=
  s.stores.map Store.peer = s.candidates ∧ ∀ c ∈ s.stores, c.inFlight = false

/-- A success has its acknowledgements, a failure its deadline or no candidate left. -/
def Justified : Outcome → Prop
  | .stored _ storedAt _ =>
    o.minAcks ≤ storedAt.length ∧ storedAt.Nodup ∧ ∀ node ∈ storedAt, s.Acknowledged o node
  | .timeout => s.late = true
  | .quorum _ _ => s.late = true ∨ s.Tried

/-- What is promised of a write at every moment. -/
structure Safe : Prop where
  once : s.outcomes.length ≤ 1
  justified : ∀ outcome ∈ s.outcomes, s.Justified o outcome
  room : s.storedAt.length + s.stores.countP Store.inFlight ≤ o.replicationFactor
  asked : (s.stores.map Store.peer).Nodup ∧ o.self ∉ s.stores.map Store.peer
  /-- It ends with the lookup and the deadline, whatever the peers do. -/
  ends : ∀ lateLookup accepted closest late,
    ((((s.step o (.lookedUp lateLookup accepted closest)).step o .deadline).step o
      (.resume late)).outcomes).length = 1

variable {o s}

/-! ### The placement -/

/-- What the stores and the counts have to do with each other. -/
structure Placed (o : Options) (s : Write) : Prop where
  acks : s.acknowledgements = s.storedAt.length
  peers : s.stores.map Store.peer = s.candidates.take s.stores.length
  nodup : s.candidates.Nodup
  others : o.self ∉ s.candidates
  inFlight : s.inFlight = s.stores.countP Store.open
  room : s.storedAt.length + s.stores.countP Store.inFlight ≤ o.replicationFactor
  once : s.storedAt.Nodup
  acknowledged : ∀ node ∈ s.storedAt, s.Acknowledged o node

theorem inFlight_le_open (l : List Store) : l.countP Store.inFlight ≤ l.countP Store.open := by
  refine List.countP_mono_left fun c _ hc => ?_
  cases hs : c.status <;> simp_all [Store.inFlight, Store.open, Status.inFlight, Status.open]

theorem Placed.peers_nodup (h : Placed o s) : (s.stores.map Store.peer).Nodup := by
  rw [h.peers]
  exact h.nodup.sublist (List.take_sublist _ _)

theorem Placed.not_self (h : Placed o s) : o.self ∉ s.stores.map Store.peer := by
  rw [h.peers]
  exact fun hmem => h.others (List.mem_of_mem_take hmem)

/-- The cursor stands where the next candidate is. -/
theorem Placed.next (h : Placed o s) {peer : NodeId} {rest : List NodeId}
    (hrest : s.candidates.drop s.stores.length = peer :: rest) :
    s.candidates.take (s.stores.length + 1) = s.stores.map Store.peer ++ [peer] ∧
      s.candidates.drop (s.stores.length + 1) = rest := by
  have hget : s.candidates[s.stores.length]? = some peer := by
    rw [← List.head?_drop, hrest, List.head?_cons]
  constructor
  · rw [List.take_add_one, hget, h.peers]
    rfl
  · rw [← List.tail_drop, hrest, List.tail_cons]

theorem Placed.launch (rest : List NodeId) (h : Placed o s)
    (hrest : s.candidates.drop s.stores.length = rest) :
    Placed o (Write.launch o rest s) := by
  induction rest generalizing s with
  | nil => exact h
  | cons peer rest ih =>
    simp only [Write.launch]
    split
    · rename_i hfree
      obtain ⟨htake, hdrop⟩ := h.next hrest
      have hle := inFlight_le_open s.stores
      refine @ih { s with stores := s.stores ++ [⟨peer, .asked⟩], inFlight := s.inFlight + 1 }
        ⟨h.acks, ?_, h.nodup, h.others, ?_, ?_, h.once, fun node hnode => ?_⟩ ?_
      · simpa using htake.symm
      · dsimp only
        rw [List.countP_append, h.inFlight]
        rfl
      · have hopen := h.inFlight
        have hone : [(⟨peer, .asked⟩ : Store)].countP Store.inFlight = 1 := rfl
        dsimp only
        rw [List.countP_append, hone]
        omega
      · refine (h.acknowledged node hnode).imp_right ?_
        rintro ⟨c, hc, hpeer⟩
        exact ⟨c, List.mem_append_left _ hc, hpeer⟩
      · simpa using hdrop
    · exact h

/-- Only stores are added, and counted. -/
theorem launch_eq (rest : List NodeId) : ∃ stores inFlight,
    launch o rest s = { s with stores := stores, inFlight := inFlight } := by
  induction rest generalizing s with
  | nil => exact ⟨_, _, rfl⟩
  | cons peer rest ih =>
    simp only [launch]
    split
    · obtain ⟨stores, inFlight, heq⟩ := @ih
        { s with stores := s.stores ++ [⟨peer, .asked⟩], inFlight := s.inFlight + 1 }
      exact ⟨stores, inFlight, heq⟩
    · exact ⟨_, _, rfl⟩

/-! ### Every step -/

/-- What the timers and the place have to do with the counts. -/
structure Inv (o : Options) (s : Write) : Prop extends Placed o s where
  ended : s.outcomes.length = if s.place = .ended then 1 else 0
  timer : s.deadlineTimer = .armed ↔ s.place = .placing
  grace : s.graceTimer = .armed → o.minAcks ≤ s.acknowledgements
  looking : s.place = .looking → s.stores = [] ∧ s.graceTimer = .unset
  timedOut : s.placementTimedOut = true → s.late = true
  closed : s.place = .finished →
    o.minAcks ≤ s.acknowledgements ∨ s.placementTimedOut = true ∨ s.Tried
  justified : ∀ outcome ∈ s.outcomes, s.Justified o outcome

theorem inv_start : Inv o start where
  acks := rfl
  peers := rfl
  nodup := .nil
  others := by simp [start]
  inFlight := rfl
  room := Nat.zero_le _
  once := .nil
  acknowledged := by simp [start]
  ended := rfl
  timer := by simp [start]
  grace := by simp [start]
  looking := fun _ => ⟨rfl, rfl⟩
  timedOut := by simp [start]
  closed := by simp [start]
  justified := by simp [start]

theorem Inv.no_outcome (h : Inv o s) (hplace : s.place ≠ .ended) : s.outcomes = [] := by
  rw [← List.length_eq_zero_iff, h.ended, if_neg hplace]

theorem Inv.finish (h : Inv o s)
    (hwhy : s.place = .placing →
      o.minAcks ≤ s.acknowledgements ∨ s.placementTimedOut = true ∨ s.Tried) :
    Inv o s.finish := by
  simp only [Write.finish]
  split
  · rename_i hplace
    have hnone := h.no_outcome (by simp [hplace])
    exact ⟨{ h with },
      by simp [hnone], by simp, by simp, by simp, h.timedOut, fun _ => hwhy hplace, by simp [hnone]⟩
  · exact h

theorem Inv.launch (h : Inv o s) (hplace : s.place = .placing) :
    Inv o (Write.launch o (s.candidates.drop s.stores.length) s) := by
  have hplaced := h.toPlaced.launch _ rfl
  have hnone := h.no_outcome (by simp [hplace])
  obtain ⟨stores, inFlight, heq⟩ := launch_eq (o := o) (s := s) (s.candidates.drop s.stores.length)
  rw [heq] at hplaced ⊢
  exact ⟨hplaced, h.ended, h.timer, h.grace, by simp [hplace], h.timedOut, by simp [hplace],
    by simp [hnone]⟩

/-- With every candidate asked and none in flight, all have been tried. -/
theorem Placed.tried (h : Placed o s) (hflight : s.inFlight = 0)
    (hall : s.candidates.length ≤ s.stores.length) : s.Tried := by
  refine ⟨by rw [h.peers, List.take_of_length_le hall], fun c hc => ?_⟩
  have hle := inFlight_le_open s.stores
  rw [← h.inFlight, hflight, Nat.le_zero, List.countP_eq_zero] at hle
  simpa using hle c hc

theorem Inv.pump (h : Inv o s) : Inv o (s.pump o) := by
  simp only [Write.pump]
  split
  · exact h
  · rename_i hplace
    rw [not_not] at hplace
    have hnone := h.no_outcome (by simp [hplace])
    split
    · rename_i hfull
      refine h.finish fun _ => .inl ?_
      rw [h.acks]
      exact o.acks_le.trans hfull
    · generalize hg : (if o.minAcks ≤ s.acknowledgements ∧ s.graceTimer = .unset then Timer.armed
        else s.graceTimer) = graceTimer
      have hgrace : Inv o { s with graceTimer := graceTimer } := by
        refine ⟨{ h with },
          h.ended, h.timer, fun harmed => ?_, by simp [hplace], h.timedOut, h.closed, by simp [hnone]⟩
        split at hg
        · rename_i hacks
          exact hacks.1
        · exact h.grace (hg.trans harmed)
      have hlaunch := hgrace.launch hplace
      split
      · rename_i hover
        exact hlaunch.finish fun _ => .inr (.inr (hlaunch.tried hover.1 hover.2))
      · exact hlaunch

/-- The call ends, with one outcome. -/
theorem Inv.conclude (h : Inv o s) (hplacing : s.place ≠ .placing) (hended : s.place ≠ .ended)
    {outcome : Outcome} (late : Bool)
    (hjust : Justified o { s with late := s.late || late } outcome) :
    Inv o { s with
      place := .ended, late := s.late || late, outcomes := s.outcomes ++ [outcome] } := by
  have hnone := h.no_outcome hended
  refine ⟨{ h with },
    by simp [hnone], ?_, h.grace, by simp, fun htimed => ?_, by simp, fun x hx => ?_⟩
  · simp [h.timer, hplacing]
  · simp [h.timedOut htimed]
  · rw [hnone, List.nil_append, List.mem_singleton] at hx
    rw [hx]
    exact hjust

theorem not_mem_candidatesOf {self : NodeId} {closest : List NodeId} :
    self ∉ candidatesOf self closest := by
  simp [candidatesOf]

theorem Inv.lookedUp (h : Inv o s) (late accepted : Bool) (closest : List NodeId) :
    Inv o (s.lookedUp o late accepted closest) := by
  simp only [Write.lookedUp]
  split
  · exact h
  · rename_i hplace
    rw [not_not] at hplace
    have hnone := h.no_outcome (by simp [hplace])
    obtain ⟨hstores, hunset⟩ := h.looking hplace
    split
    · exact h.conclude (by simp [hplace]) (by simp [hplace]) true (by simp [Justified])
    · refine Inv.pump ⟨⟨?_, ?_, (nodup_setOf _).filter _, not_mem_candidatesOf, h.inFlight, ?_, ?_,
        fun node hnode => .inl ?_⟩, by simp [hnone], by simp, by simp [hunset], by simp,
        h.timedOut, by simp, by simp [hnone]⟩
      · cases accepted <;> rfl
      · simp [hstores]
      · have := o.factor_pos
        cases accepted <;> simp [hstores, this]
      · cases accepted <;> simp
      · cases accepted <;> simp_all

/-! ### The answer of a peer -/

section
variable {i : ℕ} {peer : NodeId} {old new : Status}

theorem peers_set (hi : s.stores[i]? = some ⟨peer, old⟩) :
    (s.stores.set i ⟨peer, new⟩).map Store.peer = s.stores.map Store.peer := by
  rw [List.map_set]
  refine List.ext_getElem? fun j => ?_
  rw [List.getElem?_set]
  split
  · rename_i hj
    obtain ⟨hlt, heq⟩ := List.getElem_of_getElem? hi
    subst hj
    simp [hlt, heq]
  · rfl

theorem acknowledged_set (hi : s.stores[i]? = some ⟨peer, old⟩) (hok : old.ok = true → new.ok = true)
    {node : NodeId} (h : s.Acknowledged o node) :
    Acknowledged o { s with stores := s.stores.set i ⟨peer, new⟩ } node := by
  refine h.imp_right ?_
  rintro ⟨c, hc, hpeer, hcok⟩
  obtain ⟨j, hj⟩ := List.mem_iff_getElem?.mp hc
  rcases eq_or_ne i j with rfl | hne
  · cases hi.symm.trans hj
    refine ⟨⟨peer, new⟩, List.mem_iff_getElem?.mpr ⟨i, ?_⟩, hpeer, hok hcok⟩
    exact List.getElem?_set_self (List.getElem_of_getElem? hi).1
  · exact ⟨c, List.mem_iff_getElem?.mpr ⟨j, by rw [List.getElem?_set_ne hne, hj]⟩, hpeer, hcok⟩

theorem tried_set (hi : s.stores[i]? = some ⟨peer, old⟩) (hflight : new.inFlight = false)
    (h : s.Tried) : Tried { s with stores := s.stores.set i ⟨peer, new⟩ } := by
  refine ⟨(peers_set hi).trans h.1, fun c hc => ?_⟩
  rcases List.mem_or_eq_of_mem_set hc with hc | rfl
  · exact h.2 c hc
  · exact hflight

theorem justified_set (hi : s.stores[i]? = some ⟨peer, old⟩) (hok : old.ok = true → new.ok = true)
    (hflight : new.inFlight = false) {outcome : Outcome} (h : s.Justified o outcome) :
    Justified o { s with stores := s.stores.set i ⟨peer, new⟩ } outcome := by
  cases outcome with
  | stored acks storedAt failures =>
    exact ⟨h.1, h.2.1, fun node hnode => acknowledged_set hi hok (h.2.2 node hnode)⟩
  | timeout => exact h
  | quorum acks failures => exact h.imp_right (tried_set hi hflight)

/-- Whoever is still asked is not among those that stored. -/
theorem Placed.fresh (h : Placed o s) (hi : s.stores[i]? = some ⟨peer, .asked⟩) :
    peer ∉ s.storedAt := by
  intro hmem
  have hasked := List.mem_of_getElem? hi
  rcases h.acknowledged peer hmem with ⟨hself, -⟩ | ⟨c, hc, hpeer, hok⟩
  · exact h.not_self (List.mem_map.mpr ⟨_, hasked, hself⟩)
  · obtain rfl := List.inj_on_of_nodup_map h.peers_nodup hc hasked hpeer
    cases hok

theorem Inv.answered (h : Inv o s) (hi : s.stores[i]? = some ⟨peer, .asked⟩) (ok : Bool)
    (failures : List (NodeId × JsString)) :
    Inv o { s with
      acknowledgements := s.acknowledgements + ok.toNat
      storedAt := if ok then s.storedAt ++ [peer] else s.storedAt
      failures := failures
      stores := s.stores.set i ⟨peer, .answered ok⟩ } := by
  have hopen := Leases.countP_set (p := Store.open) (b := ⟨peer, .answered ok⟩) hi
  have hroom := Leases.countP_set (p := Store.inFlight) (b := ⟨peer, .answered ok⟩) hi
  have hfresh := h.fresh hi
  have hack : ∀ node, s.Acknowledged o node → Acknowledged o
      { s with stores := s.stores.set i ⟨peer, .answered ok⟩ } node := fun node =>
    acknowledged_set hi (by simp [Status.ok])
  refine ⟨⟨?_, ?_, h.nodup, h.others, ?_, ?_, ?_, fun node hnode => ?_⟩, h.ended, h.timer,
    fun harmed => (h.grace harmed).trans (Nat.le_add_right _ _), fun hlook => ?_, h.timedOut,
    fun hclosed => ?_, fun outcome hmem => ?_⟩
  · cases ok <;> simp [h.acks]
  · rw [List.length_set, ← h.peers, peers_set hi]
  · simp only [Store.open, Status.open] at hopen
    exact h.inFlight.trans (by simpa using hopen.symm)
  · have := h.room
    cases ok <;> simp_all [Store.inFlight, Status.inFlight] <;> omega
  · cases ok
    · exact h.once
    · simpa [List.nodup_append] using ⟨h.once, fun a ha heq => hfresh (heq ▸ ha)⟩
  · cases ok with
    | false => exact hack node (h.acknowledged node hnode)
    | true =>
      rcases List.mem_append.mp hnode with hnode | hnode
      · exact hack node (h.acknowledged node hnode)
      · obtain rfl := List.mem_singleton.mp hnode
        have hlt := (List.getElem_of_getElem? hi).1
        exact .inr ⟨⟨node, .answered true⟩, List.mem_set hlt _, rfl, rfl⟩
  · simp [(h.looking hlook).1] at hi
  · exact (h.closed hclosed).imp (fun hacks => hacks.trans (Nat.le_add_right _ _))
      (.imp_right (tried_set hi rfl))
  · exact justified_set hi (by simp [Status.ok]) rfl (h.justified outcome hmem)

/-- The slot of an answered store is given back. -/
theorem Inv.close (h : Inv o s) {ok : Bool} (hi : s.stores[i]? = some ⟨peer, .answered ok⟩) :
    Inv o { s with
      inFlight := s.inFlight - 1, stores := s.stores.set i ⟨peer, .closed ok⟩ } := by
  have hopen := Leases.countP_set (p := Store.open) (b := ⟨peer, .closed ok⟩) hi
  have hroom := Leases.countP_set (p := Store.inFlight) (b := ⟨peer, .closed ok⟩) hi
  refine ⟨⟨h.acks, ?_, h.nodup, h.others, ?_, ?_, h.once, fun node hnode => ?_⟩, h.ended, h.timer,
    h.grace, fun hlook => ?_, h.timedOut, fun hclosed => ?_, fun outcome hmem => ?_⟩
  · rw [List.length_set, ← h.peers, peers_set hi]
  · have hcount := h.inFlight
    simp only [Store.open, Status.open, Bool.toNat_true, Bool.toNat_false] at hopen
    dsimp only
    omega
  · have := h.room
    simp_all [Store.inFlight, Status.inFlight]
  · exact acknowledged_set hi (by simp [Status.ok]) (h.acknowledged node hnode)
  · simp [(h.looking hlook).1] at hi
  · exact (h.closed hclosed).imp_right (.imp_right (tried_set hi rfl))
  · exact justified_set hi (by simp [Status.ok]) rfl (h.justified outcome hmem)

end

theorem Inv.answer (h : Inv o s) (i : ℕ) (reply : Reply) : Inv o (s.answer i reply) := by
  simp only [Write.answer]
  split
  · rename_i peer hi
    cases reply with
    | stored =>
      simp only [if_neg (h.fresh hi)]
      exact h.answered hi true s.failures
    | notStored => exact h.answered hi false _
    | failed message => exact h.answered hi false _
  · exact h

theorem Inv.settle (h : Inv o s) (i : ℕ) : Inv o (s.settle o i) := by
  simp only [Write.settle]
  split
  · rename_i peer ok hi
    exact (h.close hi).pump
  · exact h

theorem Inv.deadline (h : Inv o s) : Inv o (s.deadline o) := by
  simp only [Write.deadline]
  split
  · rename_i harmed
    have hplace := h.timer.mp harmed
    have hnone := h.no_outcome (by simp [hplace])
    refine Inv.finish ⟨{ h with }, h.ended, h.timer, h.grace, h.looking, fun _ => rfl, by simp [hplace],
      by simp [hnone]⟩ fun _ => ?_
    rcases Nat.lt_or_ge s.acknowledgements o.minAcks with hlt | hge
    · exact .inr (.inl (by simp [hlt]))
    · exact .inl hge
  · exact h

theorem Inv.resume (h : Inv o s) (late : Bool) : Inv o (s.resume o late) := by
  simp only [Write.resume]
  split
  · exact h
  · rename_i hplace
    rw [not_not] at hplace
    split
    · rename_i hacks
      split
      · rename_i hlate
        refine h.conclude (by simp [hplace]) (by simp [hplace]) late ?_
        rcases Bool.or_eq_true_iff.mp hlate with htimed | hlate
        · simp [Justified, h.timedOut htimed]
        · simp [Justified, hlate]
      · rename_i hlate
        refine h.conclude (by simp [hplace]) (by simp [hplace]) late (.inr ?_)
        rcases h.closed hplace with hmin | htimed | htried
        · exact absurd hmin (Nat.not_le.mpr hacks)
        · simp [htimed] at hlate
        · exact htried
    · rename_i hacks
      have hend := h.conclude (by simp [hplace]) (by simp [hplace])
        false (show Justified o _ (.stored s.acknowledgements s.storedAt s.failures) from
        ⟨h.acks ▸ Nat.not_lt.mp hacks, h.once, h.acknowledged⟩)
      simpa using hend

theorem Inv.step (h : Inv o s) (e : Event) : Inv o (s.step o e) := by
  cases e with
  | lookedUp late accepted closest => exact h.lookedUp late accepted closest
  | answer i reply => exact h.answer i reply
  | settle i => exact h.settle i
  | grace =>
    simp only [Write.step]
    split
    · rename_i harmed
      exact h.finish fun _ => .inl (h.grace harmed)
    · exact h
  | deadline => exact h.deadline
  | resume late => exact h.resume late

theorem inv_run (es : List Event) : Inv o (run o es) := by
  induction es using List.reverseRecOn with
  | nil => exact inv_start
  | append_singleton es e ih =>
    rw [run, List.foldl_concat]
    exact ih.step e

/-! ### Where a call is -/

theorem finish_not_looking (h : s.place ≠ .looking) : s.finish.place ≠ .looking := by
  simp only [Write.finish]
  split
  · simp
  · exact h

theorem pump_not_looking (h : s.place ≠ .looking) : (s.pump o).place ≠ .looking := by
  simp only [Write.pump]
  split
  · exact h
  · split
    · exact finish_not_looking h
    · generalize (if o.minAcks ≤ s.acknowledgements ∧ s.graceTimer = .unset then Timer.armed
        else s.graceTimer) = graceTimer
      obtain ⟨stores, inFlight, heq⟩ := launch_eq (o := o) (s := { s with graceTimer := graceTimer })
        (s.candidates.drop s.stores.length)
      rw [heq]
      split
      · exact finish_not_looking h
      · exact h

theorem lookedUp_not_looking (late accepted : Bool) (closest : List NodeId) :
    (s.lookedUp o late accepted closest).place ≠ .looking := by
  simp only [Write.lookedUp]
  split
  · assumption
  · split
    · simp [fail]
    · exact pump_not_looking (by simp)

/-- After the deadline nothing is placed any more. -/
theorem Inv.deadline_place (h : Inv o s) (hplace : s.place ≠ .looking) :
    (s.deadline o).place = .finished ∨ (s.deadline o).place = .ended := by
  simp only [Write.deadline]
  split
  · rename_i harmed
    simp [Write.finish, h.timer.mp harmed]
  · rename_i hunarmed
    have hplacing := fun hp => hunarmed (h.timer.mpr hp)
    cases hs : s.place <;> simp_all

theorem resume_place (h : s.place = .finished ∨ s.place = .ended) (late : Bool) :
    (s.resume o late).place = .ended := by
  rcases h with h | h
  · simp only [Write.resume, h]
    split
    · contradiction
    · split
      · split <;> rfl
      · rfl
  · simp [Write.resume, h]

theorem Inv.ends (h : Inv o s) (lateLookup accepted : Bool) (closest : List NodeId) (late : Bool) :
    ((((s.step o (.lookedUp lateLookup accepted closest)).step o .deadline).step o
      (.resume late)).outcomes).length = 1 := by
  have hlook := h.step (.lookedUp lateLookup accepted closest)
  have hplace := hlook.deadline_place (lookedUp_not_looking lateLookup accepted closest)
  have hend := (hlook.step .deadline).step (.resume late)
  rw [hend.ended, if_pos]
  exact resume_place hplace late

theorem Inv.safe (h : Inv o s) : s.Safe o where
  once := by
    rw [h.ended]
    split <;> simp
  justified := h.justified
  room := h.room
  asked := ⟨h.peers_nodup, h.not_self⟩
  ends := h.ends

/-- Whatever the peers answer, and in which order: one outcome, which is justified, never more stores
    than are needed, and no peer asked twice. -/
theorem put_safe (o : Options) (es : List Event) : (run o es).Safe o :=
  (inv_run es).safe

end Write

end Truyn.Replication
