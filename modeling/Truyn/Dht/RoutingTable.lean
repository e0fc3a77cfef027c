import Truyn.Trust.Claims
import Truyn.Schemes.Recency

/-! dht:routing-table | the Kademlia routing table, and its peers closest to a target

    A peer is in the bucket of the bit length of its XOR distance to this node. A bucket has at most
    `k` peers, ordered by their last upsert. `Placed` is the invariant of every run; the peers of all
    buckets sorted by distance are what `closest` takes from. -/

namespace Truyn.Dht
open Trust (Value)

/-- The number of the SHA-256 digest of a string, and the language of the host. -/
structure Host where
  dhtKey : JsString → ℕ
  dhtKey_lt : ∀ s, dhtKey s < 2 ^ 256
  collation : Collation

def xorDistance (H : Host) (left right : JsString) : ℕ := H.dhtKey left ^^^ H.dhtKey right

theorem xorDistance_lt (H : Host) (left right : JsString) : xorDistance H left right < 2 ^ 256 :=
  Nat.xor_lt_two_pow (H.dhtKey_lt left) (H.dhtKey_lt right)

/-- `none` is -1: the digests are equal. -/
def bucketIndex (H : Host) (localId peerId : JsString) : Option (Fin 256) :=
  let distance := xorDistance H localId peerId
  if h : distance = 0 then none
  else some ⟨(Nat.digits 2 distance).length - 1, by
    have hle : (Nat.digits 2 distance).length ≤ 256 :=
      (Nat.digits_length_le_iff (by decide) distance).mpr (xorDistance_lt H localId peerId)
    omega⟩

/-- A peer with no `lastSeenAt` has the empty string there. -/
structure Peer where
  nodeId : JsString
  lastSeenAt : JsString
  fields : Value

/-- `{ ...peer, lastSeenAt: peer.lastSeenAt || now }`. -/
def Peer.seen (peer : Peer) (now : JsString) : Peer :=
  { peer with lastSeenAt := if peer.lastSeenAt = [] then now else peer.lastSeenAt }

/-- What the constructor keeps. -/
structure Config where
  localNodeId : JsString
  k : ℕ
  local_ne : localNodeId ≠ []
  k_pos : 0 < k

structure Table where
  buckets : Fin 256 → List Peer
  members : List JsString

def Table.new : Table := ⟨fun _ => [], []⟩

def addMember (members : List JsString) (nodeId : JsString) : List JsString :=
  if nodeId ∈ members then members else members ++ [nodeId]

variable (H : Host) (c : Config) (t : Table)

def Table.has (nodeId : JsString) : Bool := nodeId ∈ t.members

def Table.upsert (peer : Peer) (now : JsString) : Table × Bool :=
  if peer.nodeId = [] ∨ peer.nodeId = c.localNodeId then (t, false)
  else match bucketIndex H c.localNodeId peer.nodeId with
    | none => (t, false)
    | some index =>
      let bucket := Recency.use Peer.nodeId (peer.seen now) (t.buckets index)
      let members := addMember t.members peer.nodeId
      match bucket with
      | first :: rest =>
        if c.k < bucket.length then
          (⟨Function.update t.buckets index rest, members.filter (· ≠ first.nodeId)⟩, true)
        else (⟨Function.update t.buckets index bucket, members⟩, true)
      | [] => (⟨Function.update t.buckets index bucket, members⟩, true)

def Table.remove (nodeId : JsString) : Table × Bool :=
  match bucketIndex H c.localNodeId nodeId with
  | none => (t, false)
  | some index =>
    let bucket := (t.buckets index).filter fun item => item.nodeId ≠ nodeId
    let removed := bucket.length ≠ (t.buckets index).length
    (⟨Function.update t.buckets index bucket,
      if removed then t.members.filter (· ≠ nodeId) else t.members⟩, removed)

/-- `this.buckets.flat()`. -/
def Table.stored : List Peer := (List.finRange 256).flatMap t.buckets

/-- The comparison of `closest`. -/
def Closer (target : JsString) (a b : Peer) : Prop :=
  xorDistance H a.nodeId target < xorDistance H b.nodeId target ∨
    xorDistance H a.nodeId target = xorDistance H b.nodeId target ∧
      H.collation.le a.nodeId b.nodeId = true

instance (target : JsString) : DecidableRel (Closer H target) := fun _ _ =>
  inferInstanceAs (Decidable (_ ∨ _ ∧ _))

def Table.closest (target : JsString) (count : ℤ) : List Peer :=
  let limit := (max 0 count).toNat
  if limit = 0 then [] else (t.stored.insertionSort (Closer H target)).take limit

/-- One peer at a time: `restore` upserts its peers at the times when it comes to them. -/
inductive Turn
  | upsert (peer : Peer) (now : JsString)
  | remove (nodeId : JsString)

inductive Call
  | turn (one : Turn)
  | restore (peers : List (Peer × JsString))

def Call.turns : Call → List Turn
  | .turn one => [one]
  | .restore peers => peers.map fun p => .upsert p.1 p.2

def Table.turn : Turn → Table
  | .upsert peer now => (t.upsert H c peer now).1
  | .remove nodeId => (t.remove H c nodeId).1

def Table.restore (peers : List (Peer × JsString)) : Table :=
  peers.foldl (fun t p => (t.upsert H c p.1 p.2).1) t

def Table.apply : Call → Table
  | .turn one => t.turn H c one
  | .restore peers => t.restore H c peers

def run (calls : List Call) : Table := calls.foldl (fun t call => t.apply H c call) .new

/-! ### Invariant -/

/-- The id that a turn upserts. -/
def Turn.used : Turn → Option JsString
  | .upsert peer _ => some peer.nodeId
  | .remove _ => none

/-- How many turns ago an id was last upserted; the last turn comes first. -/
def age : List Turn → JsString → ℕ
  | [] => fun _ => 0
  | turn :: earlier => Recency.tick turn.used (age earlier)

structure Placed (age : JsString → ℕ) (t : Table) : Prop where
  place : ∀ index, ∀ peer ∈ t.buckets index, bucketIndex H c.localNodeId peer.nodeId = some index
  named : ∀ index, ∀ peer ∈ t.buckets index, peer.nodeId ≠ []
  size : ∀ index, (t.buckets index).length ≤ c.k
  nodup : ∀ index, ((t.buckets index).map Peer.nodeId).Nodup
  ordered : ∀ index, Recency.Ordered Peer.nodeId age (t.buckets index)
  members : ∀ nodeId, nodeId ∈ t.members ↔
    ∃ index, ∃ peer ∈ t.buckets index, peer.nodeId = nodeId

variable {H c t} {age : JsString → ℕ} {peer : Peer} {now nodeId : JsString}

theorem placed_new : Placed H c age .new where
  place := fun _ _ h => by cases h
  named := fun _ _ h => by cases h
  size := fun _ => Nat.zero_le _
  nodup := fun _ => .nil
  ordered := fun _ => .nil
  members := fun _ => by simp [Table.new]

/-- This node is in no bucket. -/
theorem bucketIndex_self (localId : JsString) : bucketIndex H localId localId = none := by
  simp [bucketIndex, xorDistance]

theorem mem_addMember {members : List JsString} {id : JsString} :
    id ∈ addMember members nodeId ↔ id = nodeId ∨ id ∈ members := by
  unfold addMember
  split
  · next hmem =>
    constructor
    · exact .inr
    · rintro (rfl | h)
      · exact hmem
      · exact h
  · simp [or_comm]

/-- A turn that changes no bucket. -/
theorem Placed.idle {used : Option JsString} (h : Placed H c age t)
    (hu : ∀ index, ∀ peer ∈ t.buckets index, used ≠ some peer.nodeId) :
    Placed H c (Recency.tick used age) t :=
  { h with ordered := fun index => (h.ordered index).tick (hu index) }

/-- A bucket is replaced by one that holds the upserted peer, and not the peers that are gone. -/
theorem Placed.update {index : Fin 256} {bucket : List Peer} {members : List JsString}
    {used : Option JsString} (h : Placed H c age t)
    (hused : ∀ id, used = some id → bucketIndex H c.localNodeId id = some index)
    (hplace : ∀ peer ∈ bucket, bucketIndex H c.localNodeId peer.nodeId = some index)
    (hnamed : ∀ peer ∈ bucket, peer.nodeId ≠ []) (hsize : bucket.length ≤ c.k)
    (hnodup : (bucket.map Peer.nodeId).Nodup)
    (hordered : Recency.Ordered Peer.nodeId (Recency.tick used age) bucket)
    (hmembers : ∀ id, id ∈ members ↔ (∃ peer ∈ bucket, peer.nodeId = id) ∨
      ∃ other, other ≠ index ∧ ∃ peer ∈ t.buckets other, peer.nodeId = id) :
    Placed H c (Recency.tick used age) ⟨Function.update t.buckets index bucket, members⟩ := by
  have hfields : ∀ {P : Fin 256 → List Peer → Prop}, P index bucket →
      (∀ other, other ≠ index → P other (t.buckets other)) →
      ∀ other, P other (Function.update t.buckets index bucket other) := by
    intro P hself hothers other
    by_cases hne : other = index
    · subst hne
      simpa using hself
    · simpa [Function.update_of_ne hne] using hothers other hne
  constructor
  · exact hfields (P := fun i b => ∀ peer ∈ b, bucketIndex H c.localNodeId peer.nodeId = some i)
      hplace fun other _ => h.place other
  · exact hfields (P := fun _ b => ∀ peer ∈ b, peer.nodeId ≠ []) hnamed fun other _ => h.named other
  · exact hfields (P := fun _ b => b.length ≤ c.k) hsize fun other _ => h.size other
  · exact hfields (P := fun _ b => (b.map Peer.nodeId).Nodup) hnodup fun other _ => h.nodup other
  · refine hfields (P := fun _ b => Recency.Ordered Peer.nodeId (Recency.tick used age) b) hordered
      fun other hne => (h.ordered other).tick fun peer hp heq => hne ?_
    exact Option.some.inj ((h.place other peer hp).symm.trans (hused _ heq))
  · intro id
    rw [hmembers]
    constructor
    · rintro (⟨peer, hp, hid⟩ | ⟨other, hne, peer, hp, hid⟩)
      · exact ⟨index, peer, by simpa using hp, hid⟩
      · exact ⟨other, peer, by simpa [Function.update_of_ne hne] using hp, hid⟩
    · rintro ⟨other, peer, hp, hid⟩
      by_cases hne : other = index
      · subst hne
        exact .inl ⟨peer, by simpa using hp, hid⟩
      · exact .inr ⟨other, hne, peer, by simpa [Function.update_of_ne hne] using hp, hid⟩

/-! ### Turns -/

/-- The ids of the other buckets are not those of this bucket. -/
theorem Placed.elsewhere (h : Placed H c age t) {index other : Fin 256} {item : Peer}
    (hi : bucketIndex H c.localNodeId nodeId = some index) (hne : other ≠ index)
    (hitem : item ∈ t.buckets other) : item.nodeId ≠ nodeId := by
  rintro rfl
  exact hne (Option.some.inj ((h.place other item hitem).symm.trans hi))

/-- What an accepted upsert does: the oldest peer goes if there are too many. -/
inductive Upserted (c : Config) (t : Table) (index : Fin 256) (bucket : List Peer)
    (members : List JsString) : Table → Prop
  | fits (h : bucket.length ≤ c.k) :
      Upserted c t index bucket members ⟨Function.update t.buckets index bucket, members⟩
  | full {first : Peer} {rest : List Peer} (hb : bucket = first :: rest) (h : c.k < bucket.length) :
      Upserted c t index bucket members
        ⟨Function.update t.buckets index rest, members.filter (· ≠ first.nodeId)⟩

theorem upsert_cases (t : Table) (peer : Peer) (now : JsString) :
    ((t.upsert H c peer now).1 = t ∧ (peer.nodeId = [] ∨ peer.nodeId = c.localNodeId ∨
      bucketIndex H c.localNodeId peer.nodeId = none)) ∨
    ∃ index, bucketIndex H c.localNodeId peer.nodeId = some index ∧ peer.nodeId ≠ [] ∧
      Upserted c t index (Recency.use Peer.nodeId (peer.seen now) (t.buckets index))
        (addMember t.members peer.nodeId) (t.upsert H c peer now).1 := by
  unfold Table.upsert
  split
  · next h => exact .inl ⟨rfl, h.elim .inl fun h => .inr (.inl h)⟩
  · next h =>
    split
    · next hindex => exact .inl ⟨rfl, .inr (.inr hindex)⟩
    · next index hindex =>
      refine .inr ⟨index, hindex, fun hnil => h (.inl hnil), ?_⟩
      dsimp only
      generalize hb : Recency.use Peer.nodeId (peer.seen now) (t.buckets index) = bucket
      cases bucket with
      | nil => exact .fits (Nat.zero_le _)
      | cons first rest =>
        dsimp only
        split
        · next hlt => exact .full rfl hlt
        · next hle => exact .fits (not_lt.mp hle)

theorem Placed.upsert (h : Placed H c age t) (peer : Peer) (now : JsString) :
    Placed H c (Recency.tick (some peer.nodeId) age) (t.upsert H c peer now).1 := by
  rcases upsert_cases (H := H) (c := c) t peer now with ⟨heq, hwhy⟩ | ⟨index, hindex, hname, hups⟩
  · rw [heq]
    refine h.idle fun index item hitem hid => ?_
    have hid := Option.some.inj hid
    have hplace := h.place index item hitem
    rcases hwhy with hnil | hself | hnone
    · exact h.named index item hitem (hid.symm.trans hnil)
    · rw [← hid, hself, bucketIndex_self] at hplace
      cases hplace
    · rw [← hid, hnone] at hplace
      cases hplace
  · have hnodup := h.nodup index
    have hmem := fun item => Recency.mem_use (x := peer.seen now) (y := item) hnodup
    have hnodup' := Recency.nodup_use (x := peer.seen now) hnodup
    have hordered := (h.ordered index).use (x := peer.seen now) hnodup
    have hlength := Recency.length_use Peer.nodeId (peer.seen now) (t.buckets index)
    have hused : ∀ id, some peer.nodeId = some id →
        bucketIndex H c.localNodeId id = some index := fun id heq => Option.some.inj heq ▸ hindex
    -- the bucket before its first peer may go
    have hplace : ∀ item ∈ Recency.use Peer.nodeId (peer.seen now) (t.buckets index),
        bucketIndex H c.localNodeId item.nodeId = some index := by
      intro item hitem
      rcases (hmem item).mp hitem with rfl | ⟨hold, -⟩
      · exact hindex
      · exact h.place index item hold
    have hnamed : ∀ item ∈ Recency.use Peer.nodeId (peer.seen now) (t.buckets index),
        item.nodeId ≠ [] := by
      intro item hitem
      rcases (hmem item).mp hitem with rfl | ⟨hold, -⟩
      · exact hname
      · exact h.named index item hold
    have hmembers : ∀ id, id ∈ addMember t.members peer.nodeId ↔
        (∃ item ∈ Recency.use Peer.nodeId (peer.seen now) (t.buckets index), item.nodeId = id) ∨
          ∃ other, other ≠ index ∧ ∃ item ∈ t.buckets other, item.nodeId = id := by
      intro id
      rw [mem_addMember, h.members]
      constructor
      · rintro (rfl | ⟨other, item, hitem, hid⟩)
        · exact .inl ⟨peer.seen now, (hmem _).mpr (.inl rfl), rfl⟩
        · by_cases hne : other = index
          · subst hne
            by_cases hsame : item.nodeId = peer.nodeId
            · exact .inl ⟨peer.seen now, (hmem _).mpr (.inl rfl), hsame.symm.trans hid⟩
            · exact .inl ⟨item, (hmem _).mpr (.inr ⟨hitem, hsame⟩), hid⟩
          · exact .inr ⟨other, hne, item, hitem, hid⟩
      · rintro (⟨item, hitem, hid⟩ | ⟨other, -, item, hitem, hid⟩)
        · rcases (hmem item).mp hitem with rfl | ⟨hold, -⟩
          · exact .inl hid.symm
          · exact .inr ⟨index, item, hold, hid⟩
        · exact .inr ⟨other, item, hitem, hid⟩
    generalize Recency.use Peer.nodeId (peer.seen now) (t.buckets index) = bucket at *
    generalize (t.upsert H c peer now).1 = after at hups ⊢
    cases hups with
    | fits hle => exact h.update hused hplace hnamed hle hnodup' hordered hmembers
    | @full first rest hb hlt =>
      subst hb
      have hrest : rest.length ≤ c.k := by
        have hsize := h.size index
        rw [List.length_cons] at hlength
        split at hlength <;> omega
      rw [List.map_cons, List.nodup_cons] at hnodup'
      obtain ⟨hfirst, hnodupRest⟩ := hnodup'
      refine h.update hused (fun item hitem => hplace item (List.mem_cons_of_mem _ hitem))
        (fun item hitem => hnamed item (List.mem_cons_of_mem _ hitem)) hrest hnodupRest
        (List.Pairwise.of_cons hordered) fun id => ?_
      rw [List.mem_filter, hmembers]
      simp only [ne_eq, decide_not, Bool.not_eq_eq_eq_not, Bool.not_true, decide_eq_false_iff_not]
      constructor
      · rintro ⟨⟨item, hitem, hid⟩ | hothers, hne⟩
        · rcases List.mem_cons.mp hitem with rfl | hitem
          · exact absurd hid.symm hne
          · exact .inl ⟨item, hitem, hid⟩
        · exact .inr hothers
      · rintro (⟨item, hitem, rfl⟩ | ⟨other, hne, item, hitem, rfl⟩)
        · exact ⟨.inl ⟨item, List.mem_cons_of_mem _ hitem, rfl⟩,
            fun heq => hfirst (heq ▸ List.mem_map_of_mem hitem)⟩
        · exact ⟨.inr ⟨other, hne, item, hitem, rfl⟩,
            h.elsewhere (hplace first List.mem_cons_self) hne hitem⟩

theorem Placed.remove (h : Placed H c age t) (nodeId : JsString) :
    Placed H c (Recency.tick none age) (t.remove H c nodeId).1 := by
  unfold Table.remove
  split
  · exact h.idle nofun
  · next index hindex =>
    dsimp only
    have hsub : ((t.buckets index).filter fun item => item.nodeId ≠ nodeId).Sublist
      (t.buckets index) := List.filter_sublist
    refine h.update nofun (fun item hitem => h.place index item (hsub.subset hitem))
      (fun item hitem => h.named index item (hsub.subset hitem))
      (hsub.length_le.trans (h.size index)) ((h.nodup index).sublist (hsub.map _))
      (Recency.Ordered.tick (List.Pairwise.sublist hsub (h.ordered index)) nofun) fun id => ?_
    have hkept : ∀ item, item ∈ (t.buckets index).filter (fun item => item.nodeId ≠ nodeId) ↔
        item ∈ t.buckets index ∧ item.nodeId ≠ nodeId := by simp
    have hothers : id ∈ t.members ∧ id ≠ nodeId ↔
        (∃ item ∈ (t.buckets index).filter (fun item => item.nodeId ≠ nodeId), item.nodeId = id) ∨
          ∃ other, other ≠ index ∧ ∃ item ∈ t.buckets other, item.nodeId = id := by
      rw [h.members]
      constructor
      · rintro ⟨⟨other, item, hitem, rfl⟩, hne⟩
        by_cases heq : other = index
        · subst heq
          exact .inl ⟨item, (hkept item).mpr ⟨hitem, hne⟩, rfl⟩
        · exact .inr ⟨other, heq, item, hitem, rfl⟩
      · rintro (⟨item, hitem, rfl⟩ | ⟨other, hne, item, hitem, rfl⟩)
        · obtain ⟨hitem, hne⟩ := (hkept item).mp hitem
          exact ⟨⟨index, item, hitem, rfl⟩, hne⟩
        · exact ⟨⟨other, item, hitem, rfl⟩, h.elsewhere hindex hne hitem⟩
    by_cases hremoved : ((t.buckets index).filter fun item => item.nodeId ≠ nodeId).length ≠
        (t.buckets index).length
    · rw [← hothers, if_pos (by simpa using hremoved), List.mem_filter]
      simp
    · rw [← hothers, if_neg (by simpa using hremoved)]
      -- nothing was removed, so the id was not there
      have hall := hsub.eq_of_length (not_not.mp hremoved)
      refine ⟨fun hmem => ⟨hmem, ?_⟩, fun hmem => hmem.1⟩
      rintro rfl
      obtain ⟨other, item, hitem, hid⟩ := (h.members _).mp hmem
      obtain rfl : other = index :=
        Option.some.inj ((h.place other item hitem).symm.trans (hid ▸ hindex))
      exact ((hkept item).mp (hall.symm ▸ hitem)).2 hid

theorem Placed.turn (h : Placed H c age t) (o : Turn) :
    Placed H c (Recency.tick o.used age) (t.turn H c o) := by
  cases o with
  | upsert peer now => exact h.upsert peer now
  | remove nodeId => exact h.remove nodeId

/-! ### Runs -/

/-- The turns of a run, the last first. -/
def turnsOf (calls : List Call) : List Turn := (calls.flatMap Call.turns).reverse

theorem apply_turns (t : Table) (call : Call) :
    t.apply H c call = call.turns.foldl (fun t o => t.turn H c o) t := by
  cases call with
  | turn o => rfl
  | restore peers => simp [Table.apply, Table.restore, Call.turns, List.foldl_map, Table.turn]

theorem run_turns (calls : List Call) :
    run H c calls = (calls.flatMap Call.turns).foldl (fun t o => t.turn H c o) .new := by
  unfold run
  simp only [List.foldl_flatMap, apply_turns]

/-- RUN: the invariant holds, with the ages of the run. -/
theorem placed_run (calls : List Call) : Placed H c (Dht.age (turnsOf calls)) (run H c calls) := by
  rw [run_turns, turnsOf]
  generalize calls.flatMap Call.turns = turns
  induction turns using List.reverseRecOn with
  | nil => exact placed_new
  | append_singleton turns o ih =>
    rw [List.foldl_append, List.reverse_append]
    exact ih.turn o

/-! ### The closest peers -/

instance (target : JsString) : IsTrans Peer (Closer H target) := ⟨by
  rintro a b d (hab | ⟨hab, hab'⟩) (hbd | ⟨hbd, hbd'⟩)
  · exact .inl (hab.trans hbd)
  · exact .inl (hbd ▸ hab)
  · exact .inl (hab ▸ hbd)
  · exact .inr ⟨hab.trans hbd, H.collation.trans _ _ _ hab' hbd'⟩⟩

instance (target : JsString) : Std.Total (Closer H target) := ⟨by
  intro a b
  rcases lt_trichotomy (xorDistance H a.nodeId target) (xorDistance H b.nodeId target) with h | h | h
  · exact .inl (.inl h)
  · have htotal := H.collation.total a.nodeId b.nodeId
    rw [Bool.or_eq_true] at htotal
    exact htotal.imp (fun hle => .inr ⟨h, hle⟩) fun hle => .inr ⟨h.symm, hle⟩
  · exact .inr (.inl h)⟩

/-- Peers of different digests are at different distances. -/
theorem distance_injective {a b : JsString} (target : JsString)
    (h : xorDistance H a target = xorDistance H b target) : H.dhtKey a = H.dhtKey b :=
  Nat.xor_left_inj.mp h

theorem mem_stored : peer ∈ t.stored ↔ ∃ index, peer ∈ t.buckets index := by
  simp [Table.stored]

/-- No node id is stored twice. -/
theorem Placed.nodup_stored (h : Placed H c age t) : (t.stored.map Peer.nodeId).Nodup := by
  rw [Table.stored, List.map_flatMap, List.nodup_flatMap]
  refine ⟨fun index _ => h.nodup index, ?_⟩
  refine (List.nodup_finRange 256).imp_of_mem fun {i j} _ _ hne => ?_
  intro id hid hid'
  obtain ⟨a, ha, rfl⟩ := List.mem_map.mp hid
  obtain ⟨b, hb, hab⟩ := List.mem_map.mp hid'
  exact h.elsewhere (h.place i a ha) (Ne.symm hne) hb hab

/-- `closest` is the front of the stored peers in the order of their distance. -/
theorem closest_eq (target : JsString) (count : ℤ) :
    t.closest H target count = (t.stored.insertionSort (Closer H target)).take count.toNat := by
  have hlimit : (max 0 count).toNat = count.toNat := by omega
  unfold Table.closest
  simp only [hlimit]
  split
  · next hzero => simp [hzero]
  · rfl

theorem Placed.closest (h : Placed H c age t) (target : JsString) (count : ℤ)
    (hinj : Set.InjOn H.dhtKey {id | ∃ peer ∈ t.stored, peer.nodeId = id}) :
    (t.closest H target count).length = min count.toNat t.stored.length ∧
    (∀ peer ∈ t.closest H target count, peer ∈ t.stored) ∧
    (t.closest H target count).Pairwise (fun a b =>
      xorDistance H a.nodeId target < xorDistance H b.nodeId target) ∧
    ∀ peer ∈ t.stored, peer ∉ t.closest H target count → ∀ near ∈ t.closest H target count,
      xorDistance H near.nodeId target < xorDistance H peer.nodeId target := by
  rw [closest_eq]
  have hperm := List.perm_insertionSort (Closer H target) t.stored
  have hnodup := (hperm.map Peer.nodeId).nodup_iff.mpr h.nodup_stored
  have hsorted : (t.stored.insertionSort (Closer H target)).Pairwise fun a b =>
      xorDistance H a.nodeId target < xorDistance H b.nodeId target := by
    refine List.Pairwise.imp_of_mem (fun {a b} ha hb hab => ?_)
      ((List.pairwise_insertionSort (Closer H target) t.stored).and (List.pairwise_map.mp hnodup))
    rcases hab.1 with hlt | ⟨heq, -⟩
    · exact hlt
    · exact absurd (hinj ⟨a, hperm.subset ha, rfl⟩ ⟨b, hperm.subset hb, rfl⟩
        (distance_injective target heq)) hab.2
  generalize t.stored.insertionSort (Closer H target) = sorted at *
  refine ⟨by rw [List.length_take, hperm.length_eq], fun peer hp =>
    hperm.subset (List.mem_of_mem_take hp), hsorted.sublist (List.take_sublist _ _), ?_⟩
  intro peer hp hfar near hnear
  rw [← List.take_append_drop count.toNat sorted, List.pairwise_append] at hsorted
  have hdrop : peer ∈ sorted.drop count.toNat := by
    have hmem := hperm.symm.subset hp
    rw [← List.take_append_drop count.toNat sorted, List.mem_append] at hmem
    exact hmem.resolve_left hfar
  exact hsorted.2.2 near hnear peer hdrop

/-- A full bucket drops the peer that was not upserted for the longest time. -/
theorem Placed.evicts (h : Placed H c age t) {index : Fin 256} (hname : peer.nodeId ≠ [])
    (hindex : bucketIndex H c.localNodeId peer.nodeId = some index)
    (hfull : (t.buckets index).length = c.k)
    (hnew : peer.nodeId ∉ (t.buckets index).map Peer.nodeId) (now : JsString) :
    ∃ oldest rest, t.buckets index = oldest :: rest ∧
      (t.upsert H c peer now).1.buckets =
        Function.update t.buckets index (rest ++ [peer.seen now]) ∧
      ∀ other ∈ rest, age other.nodeId < age oldest.nodeId := by
  have hordered := h.ordered index
  have huse : Recency.use Peer.nodeId (peer.seen now) (t.buckets index) =
      t.buckets index ++ [peer.seen now] := Recency.use_of_notMem hnew
  rcases upsert_cases (H := H) (c := c) t peer now with ⟨-, hnil | hself | hnone⟩ |
    ⟨index', hindex', -, hups⟩
  · exact absurd hnil hname
  · rw [hself, bucketIndex_self] at hindex
    cases hindex
  · rw [hnone] at hindex
    cases hindex
  · cases hindex.symm.trans hindex'
    rw [huse] at hups
    generalize (t.upsert H c peer now).1 = after at hups ⊢
    generalize hbucket : t.buckets index = bucket at *
    generalize hlonger : bucket ++ [peer.seen now] = longer at hups
    have hlength : longer.length = c.k + 1 := by simp [← hlonger, hfull]
    cases hups with
    | fits hle => omega
    | @full first rest hb hlt =>
      cases bucket with
      | nil =>
        have hpos := c.k_pos
        rw [List.length_nil] at hfull
        omega
      | cons oldest others =>
        rw [hb, List.cons_append] at hlonger
        obtain ⟨rfl, rfl⟩ := List.cons.inj hlonger
        exact ⟨oldest, others, rfl, rfl, (List.pairwise_cons.mp hordered).1⟩

/-- The routing table after any calls: every peer is in its bucket, no bucket has more than `k`, no
    id is there twice, this node is not there, `members` are the ids that are; a full bucket drops the
    peer whose last upsert is the oldest; and `closest` gives the nearest peers in order. -/
theorem routing_table (calls : List Call) :
    let t := run H c calls
    (∀ index, ∀ peer ∈ t.buckets index,
      bucketIndex H c.localNodeId peer.nodeId = some index) ∧
    (∀ index, (t.buckets index).length ≤ c.k) ∧
    (t.stored.map Peer.nodeId).Nodup ∧
    c.localNodeId ∉ t.stored.map Peer.nodeId ∧
    (∀ nodeId, nodeId ∈ t.members ↔ nodeId ∈ t.stored.map Peer.nodeId) ∧
    (∀ index peer now, peer.nodeId ≠ [] →
      bucketIndex H c.localNodeId peer.nodeId = some index →
      (t.buckets index).length = c.k → peer.nodeId ∉ (t.buckets index).map Peer.nodeId →
      ∃ oldest rest, t.buckets index = oldest :: rest ∧
        (t.upsert H c peer now).1.buckets =
          Function.update t.buckets index (rest ++ [peer.seen now]) ∧
        ∀ other ∈ rest, Dht.age (turnsOf calls) other.nodeId <
          Dht.age (turnsOf calls) oldest.nodeId) ∧
    ∀ target count, Set.InjOn H.dhtKey {id | ∃ peer ∈ t.stored, peer.nodeId = id} →
      (t.closest H target count).length = min count.toNat t.stored.length ∧
      (∀ peer ∈ t.closest H target count, peer ∈ t.stored) ∧
      (t.closest H target count).Pairwise (fun a b =>
        xorDistance H a.nodeId target < xorDistance H b.nodeId target) ∧
      ∀ peer ∈ t.stored, peer ∉ t.closest H target count → ∀ near ∈ t.closest H target count,
        xorDistance H near.nodeId target < xorDistance H peer.nodeId target := by
  have h := placed_run (H := H) (c := c) calls
  refine ⟨h.place, h.size, h.nodup_stored, fun hmem => ?_, fun nodeId => ?_,
    fun index peer now hname hindex hfull hnew => h.evicts hname hindex hfull hnew now,
    fun target count hinj => h.closest target count hinj⟩
  · obtain ⟨peer, hp, hid⟩ := List.mem_map.mp hmem
    obtain ⟨index, hp⟩ := mem_stored.mp hp
    have hplace := h.place index peer hp
    rw [hid, bucketIndex_self] at hplace
    cases hplace
  · rw [h.members, List.mem_map]
    simp only [mem_stored]
    constructor
    · rintro ⟨index, peer, hp, hid⟩
      exact ⟨peer, ⟨index, hp⟩, hid⟩
    · rintro ⟨peer, ⟨index, hp⟩, hid⟩
      exact ⟨index, peer, hp, hid⟩

/-- The key is the first code unit: 1 and 2 are both in bucket 3 of node 8, and 2 is nearest to 3. -/
def firstUnit : Host where
  dhtKey := fun s => (s.headD 0).toNat
  dhtKey_lt := fun s => (s.headD 0).toNat_lt.trans_le (by decide)
  collation :=
    { le := fun a b => decide (a.length ≤ b.length)
      total := fun a b => by simpa using Nat.le_total a.length b.length
      trans := fun a b c => by simpa using Nat.le_trans }

def pair : List Call :=
  [.restore [(⟨[1], [], .null⟩, [7]), (⟨[4], [], .null⟩, [7])],
    .turn (.upsert ⟨[2], [], .null⟩ [9]), .turn (.remove [5])]

theorem routing_table_pair :
    let t := run firstUnit ⟨[8], 2, by decide, by decide⟩ pair
    t.stored.map Peer.nodeId = [[4], [2]] ∧ (t.closest firstUnit [3] 1).length = 1 ∧
      ∀ peer ∈ t.stored, peer ∉ t.closest firstUnit [3] 1 →
        ∀ near ∈ t.closest firstUnit [3] 1,
          xorDistance firstUnit near.nodeId [3] < xorDistance firstUnit peer.nodeId [3] := by
  intro t
  have hids : t.stored.map Peer.nodeId = [[4], [2]] := by decide +kernel
  have hinj : Set.InjOn firstUnit.dhtKey {id | ∃ peer ∈ t.stored, peer.nodeId = id} := by
    intro a ha b hb heq
    replace ha : a ∈ t.stored.map Peer.nodeId := List.mem_map.mpr ha
    replace hb : b ∈ t.stored.map Peer.nodeId := List.mem_map.mpr hb
    rw [hids] at ha hb
    simp only [List.mem_cons, List.not_mem_nil, or_false] at ha hb
    rcases ha with rfl | rfl <;> rcases hb with rfl | rfl <;> first | rfl | cases heq
  have h := routing_table (H := firstUnit) (c := ⟨[8], 2, by decide, by decide⟩) pair
  obtain ⟨-, -, -, -, -, -, hclosest⟩ := h
  obtain ⟨hlength, -, -, hnear⟩ := hclosest [3] 1 hinj
  have hstored : t.stored.length = 2 := by simpa using congrArg List.length hids
  refine ⟨hids, ?_, hnear⟩
  rw [hlength, hstored]
  rfl

end Truyn.Dht
