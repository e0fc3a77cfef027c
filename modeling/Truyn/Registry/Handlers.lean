import Truyn.Js.Text
import Truyn.Schemes.Along
import Truyn.Schemes.Leases
import Truyn.Schemes.Maps

/-! registry:handlers | the relay's nodes and offers, and the handlers that reserve room for them

    With `lifecycleMaintenance`, a handler of `/v1/register` or `/v1/offers` holds the lock of its owner
    while it awaits the ledger. A new node reserves a slot first, or a stale node whose slot it will
    take; an offer is counted as pending until it is put. Each segment between two awaits is a step. -/

namespace Truyn.Registry

abbrev NodeId := JsString
abbrev OfferId := JsString

structure Options where
  maxNodes : ℕ
  maxOffers : ℕ
  nodeFreshnessMs : ℕ

/-- The slot a registration goes on with: its node is there already, a free slot, or that of a stale
    node. -/
inductive Slot
  | kept
  | free
  | evicting (stale : NodeId)
  deriving DecidableEq

/-- A handler at its `await`. -/
inductive Task
  /-- `/v1/register`, after `restoreOffers` -/
  | restoring (owner : NodeId) (slot : Slot)
  /-- `/v1/offers`, after `getOffer` -/
  | looking (owner : NodeId) (id : OfferId)
  /-- `/v1/offers`, after `reserveOffer` -/
  | reserving (owner : NodeId) (id : OfferId)
  /-- `/v1/revoke`, after `revokeOffer` -/
  | revoking (owner : NodeId)
  | done
  deriving DecidableEq

/-- The answers to a registration or an offer. -/
inductive Answer
  | ok
  | ownerLocked
  | nodeCapacityReached
  | offerCapacityReached
  | duplicateOffer
  | failed
  deriving DecidableEq

/-- `nodes` has the time each node was seen last, and `offers` the owner of each offer. `answers`
    logs who was answered what, and the slot he had. -/
structure Relay where
  nodes : List (NodeId × ℕ)
  offers : List (OfferId × NodeId)
  ownerLifecycleMutations : List NodeId
  pendingNodeReservations : List NodeId
  pendingEvictionNodeIds : List NodeId
  pendingOfferReservations : ℕ
  tasks : List Task
  answers : List (NodeId × Slot × Answer)

/-- Input to a segment: the clock, the nodes with an open socket, and what the ledger gives (a fault,
    the offers of an owner, or whether an offer is there). -/
structure Input where
  now : ℕ
  connected : NodeId → Bool
  fails : Bool
  saved : List OfferId
  exists_ : Bool

inductive Event
  | register (owner : NodeId) (i : Input)
  | offer (owner : NodeId) (id : OfferId) (i : Input)
  | revoke (owner : NodeId)
  | touch (node : NodeId) (now : ℕ)
  | resume (task : ℕ) (i : Input)

namespace Relay

variable (o : Options) (s : Relay)

def start : Relay := ⟨[], [], [], [], [], 0, [], []⟩

def hasNode (n : NodeId) : Bool := (Maps.get s.nodes n).isSome

/-- No pending eviction, no operation of the owner, no socket, and not seen for a while. -/
def stale (i : Input) (n : NodeId × ℕ) : Bool :=
  !(n.1 ∈ s.pendingEvictionNodeIds) && !(n.1 ∈ s.ownerLifecycleMutations) && !i.connected n.1 &&
    decide (o.nodeFreshnessMs < i.now - n.2)

/-- Of the stale nodes, the one not seen the longest. -/
def findStaleNodeCandidate (i : Input) : Option NodeId :=
  ((s.nodes.filter (s.stale o i)).foldl (fun candidate n =>
    match candidate with
    | some c => if n.2 < c.2 then some n else some c
    | none => some n) (none : Option (NodeId × ℕ))).map Prod.fst

def dropOffersOf (owner : NodeId) : Relay :=
  { s with offers := s.offers.filter fun f => f.2 ≠ owner }

/-- The node goes with its offers, if it is stale still. -/
def commitStaleNodeEviction (n : NodeId) (i : Input) : Option Relay :=
  match Maps.get s.nodes n with
  | none => none
  | some seen =>
    if n ∈ s.ownerLifecycleMutations ∨ i.connected n = true ∨ i.now - seen ≤ o.nodeFreshnessMs then
      none
    else some { s.dropOffersOf n with nodes := Maps.delete n s.nodes }

/-- A handler has started and awaits. -/
def await (t : Task) : Relay := { s with tasks := s.tasks ++ [t] }

def answer (owner : NodeId) (slot : Slot) (a : Answer) : Relay :=
  { s with answers := s.answers ++ [(owner, slot, a)] }

/-- `withOwnerLifecycleMutation` -/
def lock (owner : NodeId) : Relay :=
  { s with ownerLifecycleMutations := s.ownerLifecycleMutations ++ [owner] }

/-- The end of a handler: its lock is given back. -/
def finish (task : ℕ) (owner : NodeId) : Relay :=
  { s with
    tasks := s.tasks.set task .done
    ownerLifecycleMutations := s.ownerLifecycleMutations.filter (· ≠ owner) }

/-! ### `/v1/register` -/

/-- The slot of a registration, if there is one for it. -/
def reserveSlot (owner : NodeId) (i : Input) : Option Slot :=
  if s.hasNode owner then some .kept
  else if s.nodes.length + s.pendingNodeReservations.length < o.maxNodes then some .free
  else (s.findStaleNodeCandidate o i).map .evicting

/-- The reservations of a slot. -/
def reserve (owner : NodeId) : Slot → Relay
  | .kept => s
  | .free => { s with pendingNodeReservations := s.pendingNodeReservations ++ [owner] }
  | .evicting n =>
    { s with
      pendingNodeReservations := s.pendingNodeReservations ++ [owner]
      pendingEvictionNodeIds := s.pendingEvictionNodeIds ++ [n] }

/-- The `finally` of the registration. -/
def unreserve (owner : NodeId) : Slot → Relay
  | .kept => s
  | .free => { s with pendingNodeReservations := s.pendingNodeReservations.filter (· ≠ owner) }
  | .evicting n =>
    { s with
      pendingNodeReservations := s.pendingNodeReservations.filter (· ≠ owner)
      pendingEvictionNodeIds := s.pendingEvictionNodeIds.filter (· ≠ n) }

def register (owner : NodeId) (i : Input) : Relay :=
  if owner ∈ s.ownerLifecycleMutations then s.answer owner .kept .ownerLocked
  else
    match s.reserveSlot o owner i with
    | none => s.answer owner .kept .nodeCapacityReached
    | some slot => ((s.lock owner).reserve owner slot).await (.restoring owner slot)

def putOffers (owner : NodeId) (ids : List OfferId) : Relay :=
  { s with offers := ids.foldl (fun m id => Maps.set id owner m) s.offers }

/-- The node is entered with the offers the ledger has of it. -/
def enter (owner : NodeId) (i : Input) : Relay :=
  let s := { s with nodes := Maps.set owner i.now s.nodes }
  (s.dropOffersOf owner).putOffers owner i.saved

/-- After `restoreOffers`: a slot for a node that is not there, its own or that of the stale node. -/
def enroll (owner : NodeId) (slot : Slot) (i : Input) : Relay × Answer :=
  if i.fails then (s, .failed)
  else if o.maxOffers < (s.offers.filter fun f => f.2 ≠ owner).length + i.saved.length +
      s.pendingOfferReservations then (s, .offerCapacityReached)
  else if !s.hasNode owner ∧ o.maxNodes ≤ s.nodes.length then
    match slot with
    | .evicting n =>
      match s.commitStaleNodeEviction o n i with
      | some t => (t.enter owner i, .ok)
      | none => (s, .nodeCapacityReached)
    | _ => (s, .nodeCapacityReached)
  else (s.enter owner i, .ok)

/-! ### `/v1/offers` -/

def lookOffer (owner : NodeId) (id : OfferId) : Relay :=
  if owner ∈ s.ownerLifecycleMutations then s.answer owner .kept .ownerLocked
  else if (Maps.get s.offers id).isSome then s.answer owner .kept .duplicateOffer
  else (s.lock owner).await (.looking owner id)

/-- After `getOffer`: the offer is counted as pending while the ledger reserves it. -/
def reserveOffer (task : ℕ) (owner : NodeId) (id : OfferId) (i : Input) : Relay :=
  if i.fails then (s.finish task owner).answer owner .kept .failed
  else if i.exists_ then (s.finish task owner).answer owner .kept .duplicateOffer
  else if o.maxOffers ≤ s.offers.length + s.pendingOfferReservations then
    (s.finish task owner).answer owner .kept .offerCapacityReached
  else
    { s with
      pendingOfferReservations := s.pendingOfferReservations + 1
      tasks := s.tasks.set task (.reserving owner id) }

/-- After `reserveOffer`: it is put, and pending no more. -/
def putOffer (task : ℕ) (owner : NodeId) (id : OfferId) (i : Input) : Relay :=
  let s := { s.finish task owner with
    pendingOfferReservations := s.pendingOfferReservations - 1 }
  if i.fails then s.answer owner .kept .failed
  else { s.answer owner .kept .ok with offers := Maps.set id owner s.offers }

/-! ### Whole runs -/

def goOn (task : ℕ) (i : Input) : Task → Relay
  | .restoring owner slot =>
    let next := s.enroll o owner slot i
    ((next.1.unreserve owner slot).finish task owner).answer owner slot next.2
  | .looking owner id => s.reserveOffer o task owner id i
  | .reserving owner id => s.putOffer task owner id i
  | .revoking owner => s.finish task owner
  | .done => s

def step : Event → Relay
  | .register owner i => s.register o owner i
  | .offer owner id _ => s.lookOffer owner id
  | .revoke owner =>
    if owner ∈ s.ownerLifecycleMutations then s.answer owner .kept .ownerLocked
    else (s.lock owner).await (.revoking owner)
  | .touch n now =>
    if s.hasNode n then { s with nodes := Maps.set n now s.nodes } else s
  | .resume task i =>
    match s.tasks[task]? with
    | some t => s.goOn o task i t
    | none => s

end Relay

def run (o : Options) (es : List Event) : Relay := es.foldl (Relay.step o) .start

end Truyn.Registry
