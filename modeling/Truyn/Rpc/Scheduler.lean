import Truyn.Js.Text
import Truyn.Schemes.Maps
import Truyn.Schemes.Slots

/-! rpc:scheduler | the lanes of `RpcLaneScheduler`

    Every call runs in a lane and at a peer, and both have a limit. A call that cannot run is queued
    in its lane. Whenever a slot is given back the queues are pumped: each is walked from its head, a
    waiter blocked by its peer is passed over, and the walk ends when the lane is full. -/

namespace Truyn.Rpc

inductive Lane
  | critical
  | control
  | background
  deriving DecidableEq

/-- `RPC_LANES`, in the order in which they are pumped. -/
def lanes : List Lane := [.critical, .control, .background]

def Lane.name : Lane → JsString
  | .critical => js "critical"
  | .control => js "control"
  | .background => js "background"

def normalizeLane (lane : JsString) : Lane := (lanes.find? fun l => l.name = lane).getD .control

/-- The options the constructor accepts. -/
structure Limits where
  laneLimits : Lane → ℕ
  perPeerInFlight : ℕ
  lane_pos : ∀ l, 1 ≤ laneLimits l
  peer_pos : 1 ≤ perPeerInFlight

structure Waiter where
  /-- The call of `acquire` that waits. -/
  call : ℕ
  peerId : JsString
  timer : Bool

structure Stats where
  admitted : ℕ
  queued : ℕ
  expiredInQueue : ℕ
  maxQueueDepth : ℕ

abbrev Call := Slots.Call Lane JsString

/-- `calls` are the calls of `acquire`: a waiting one has a promise that is not settled, a running one
    was handed its release function, a done one has called it, and an expired one was rejected. -/
structure Scheduler where
  inFlight : Lane → ℕ
  queues : Lane → List Waiter
  peerInFlight : List (JsString × ℕ)
  stats : Lane → Stats
  calls : List Call

namespace Scheduler

def new : Scheduler := ⟨fun _ => 0, fun _ => [], [], fun _ => ⟨0, 0, 0, 0⟩, []⟩

variable (c : Limits) (s : Scheduler)

/-- `this.peerInFlight.get(peerId) || 0` -/
def peerCount (peerId : JsString) : ℕ := (Maps.get s.peerInFlight peerId).getD 0

def canRun (lane : Lane) (peerId : JsString) : Bool :=
  s.inFlight lane < c.laneLimits lane && s.peerCount peerId < c.perPeerInFlight

def count (lane : Lane) (f : Stats → Stats) : Scheduler :=
  { s with stats := Function.update s.stats lane (f (s.stats lane)) }

def setQueue (lane : Lane) (queue : List Waiter) : Scheduler :=
  { s with queues := Function.update s.queues lane queue }

def settle (call : ℕ) (lane : Lane) (peerId : JsString) (status : Slots.Status) : Scheduler :=
  { s with calls := s.calls.set call ⟨lane, peerId, status⟩ }

/-- `#start`, and the promise of the call is resolved with the release function. -/
def start (call : ℕ) (lane : Lane) (peerId : JsString) : Scheduler :=
  ({ s with
    inFlight := Function.update s.inFlight lane (s.inFlight lane + 1)
    peerInFlight := Maps.set peerId (s.peerCount peerId + 1) s.peerInFlight }.count lane
      fun st => { st with admitted := st.admitted + 1 }).settle call lane peerId .running

/-- The walk through the queue of a lane, `skipped` behind it and the rest before it. -/
def pumpFrom (lane : Lane) (skipped : List Waiter) : List Waiter → Scheduler → Scheduler
  | [], s => s
  | w :: rest, s =>
    if s.inFlight lane < c.laneLimits lane then
      if s.canRun c lane w.peerId then
        pumpFrom lane skipped rest ((s.setQueue lane (skipped ++ rest)).start w.call lane w.peerId)
      else pumpFrom lane (skipped ++ [w]) rest s
    else s

def pump : Scheduler := lanes.foldl (fun s lane => pumpFrom c lane [] (s.queues lane) s) s

def giveBack (lane : Lane) (peerId : JsString) : Scheduler :=
  let held := s.peerCount peerId
  let remaining := (if held = 0 then 1 else held) - 1
  { s with
    inFlight := Function.update s.inFlight lane (s.inFlight lane - 1)
    peerInFlight := if remaining = 0 then Maps.delete peerId s.peerInFlight
      else Maps.set peerId remaining s.peerInFlight }

/-- The function `#start` returned for this call. Only the first time it does anything. -/
def release (call : ℕ) : Scheduler :=
  match s.calls[call]? with
  | some ⟨lane, peerId, .running⟩ =>
    ((s.giveBack lane peerId).settle call lane peerId .done).pump c
  | _ => s

/-- `String(peerId || 'unknown')` -/
def peerKey (peerId : JsString) : JsString := if peerId = [] then js "unknown" else peerId

/-- The time that remains is `deadlineAt - Date.now()`, for a finite deadline. -/
def acquire (lane peerId : JsString) (remaining : Option ℚ) : Scheduler :=
  let normalized := normalizeLane lane
  let key := peerKey peerId
  let call := s.calls.length
  let s := { s with calls := s.calls ++ [(⟨normalized, key, .waiting⟩ : Call)] }
  if s.queues normalized = [] ∧ s.canRun c normalized key then s.start call normalized key
  else if remaining.any (· ≤ 0) then
    (s.count normalized fun st => { st with expiredInQueue := st.expiredInQueue + 1 }).settle call
      normalized key .expired
  else
    let queue := s.queues normalized ++ [⟨call, key, remaining.isSome⟩]
    ((s.setQueue normalized queue).count normalized fun st =>
      { st with queued := st.queued + 1, maxQueueDepth := max st.maxQueueDepth queue.length }).pump c

/-- The timer of a waiter; it is cleared when the waiter starts. -/
def expire (call : ℕ) : Scheduler :=
  match s.calls[call]? with
  | some ⟨lane, peerId, .waiting⟩ =>
    if (s.queues lane).any fun w => w.call = call && w.timer then
      ((s.setQueue lane ((s.queues lane).filter fun w => w.call ≠ call)).count lane fun st =>
        { st with expiredInQueue := st.expiredInQueue + 1 }).settle call lane peerId .expired
    else s
  | _ => s

inductive Event
  | acquire (lane peerId : JsString) (remaining : Option ℚ)
  | release (call : ℕ)
  | expire (call : ℕ)

def step : Event → Scheduler
  | .acquire lane peerId remaining => s.acquire c lane peerId remaining
  | .release call => s.release c call
  | .expire call => s.expire call

def run (es : List Event) : Scheduler := es.foldl (step c) .new

variable {c s} {t : Scheduler} {lane l : Lane} {peerId p : JsString} {call i : ℕ} {w : Waiter}

/-! ### What is counted and who is queued -/

/-- What is counted is the number of the calls that run. -/
structure Counts (s : Scheduler) : Prop where
  lane : ∀ l, s.inFlight l = Slots.inLane s.calls l
  peer : ∀ p, s.peerCount p = Slots.atPeer s.calls p

/-- The queues hold the calls that wait, in the order in which they came. -/
structure Queued (s : Scheduler) : Prop where
  waits : ∀ l, ∀ w ∈ s.queues l, s.calls[w.call]? = some ⟨l, w.peerId, .waiting⟩
  queued : ∀ i l p, s.calls[i]? = some ⟨l, p, .waiting⟩ → ∃ w ∈ s.queues l, w.call = i
  ordered : ∀ l, (s.queues l).Pairwise (·.call < ·.call)

abbrev Free (c : Limits) (calls : List Call) (l : Lane) (p : JsString) : Prop :=
  Slots.Free c.laneLimits c.perPeerInFlight calls l p

abbrev Starts (c : Limits) : List Call → List Call → Prop :=
  Slots.Starts c.laneLimits c.perPeerInFlight

theorem Counts.canRun (h : Counts s) : s.canRun c l p = true ↔ Free c s.calls l p := by
  simp [Scheduler.canRun, Slots.Free, h.lane, h.peer]

theorem Counts.blocked (h : Counts s) : s.canRun c l p = false ↔ ¬Free c s.calls l p := by
  rw [← h.canRun (c := c), Bool.not_eq_true]

theorem peerCount_set {n : ℕ} {m : List (JsString × ℕ)} :
    (Maps.get (Maps.set peerId n m) p).getD 0 = if peerId = p then n else (Maps.get m p).getD 0 := by
  rw [Maps.get_set]
  split <;> rfl

theorem Counts.start (h : Counts s) (hcall : s.calls[call]? = some ⟨lane, peerId, .waiting⟩) :
    Counts (s.start call lane peerId) := by
  constructor
  · intro l
    refine Eq.trans ?_ (Slots.inLane_start (l := l) hcall rfl).symm
    by_cases hl : lane = l
    · subst hl
      simp [Scheduler.start, settle, count, h.lane]
    · simp [Scheduler.start, settle, count, h.lane, hl, Function.update_of_ne (Ne.symm hl)]
  · intro p
    refine Eq.trans (peerCount_set (m := s.peerInFlight)) ?_
    refine Eq.trans ?_ (Slots.atPeer_start (p := p) hcall rfl).symm
    split
    · subst p
      simp [h.peer]
    · simpa [peerCount] using h.peer p

/-! ### The walk through a queue -/

/-- What pumping a lane did. -/
structure Pumped (c : Limits) (lane : Lane) (s t : Scheduler) : Prop where
  counts : Counts t
  queued : Queued t
  starts : Relation.ReflTransGen (Starts c) s.calls t.calls
  blocked : ∀ w ∈ t.queues lane, t.canRun c lane w.peerId = false
  others : ∀ l, l ≠ lane → t.queues l = s.queues l

theorem Queued.call_ne (h : Queued s) {skipped rest : List Waiter}
    (hqueue : s.queues lane = skipped ++ w :: rest) {v : Waiter} (hv : v ∈ skipped ++ rest) :
    v.call ≠ w.call := by
  have hordered := h.ordered lane
  rw [hqueue, List.pairwise_append, List.pairwise_cons] at hordered
  obtain ⟨-, ⟨hrest, -⟩, hskipped⟩ := hordered
  rcases List.mem_append.mp hv with hv | hv
  · exact (hskipped v hv w List.mem_cons_self).ne
  · exact (hrest v hv).ne'

variable {d : Call} {calls : List Call}

/-- A waiter leaves its queue, and its call waits no more. -/
theorem Queued.leave (h : Queued s) {skipped rest : List Waiter}
    (hqueue : s.queues lane = skipped ++ w :: rest) (hd : d.status ≠ .waiting)
    (hcalls : t.calls = s.calls.set w.call d)
    (hqueues : t.queues = Function.update s.queues lane (skipped ++ rest)) : Queued t := by
  have hw : s.calls[w.call]? = some ⟨lane, w.peerId, .waiting⟩ := h.waits lane w (by simp [hqueue])
  constructor
  · intro l v hv
    have hother : v.call ≠ w.call ∧ s.calls[v.call]? = some ⟨l, v.peerId, .waiting⟩ := by
      by_cases hl : l = lane
      · subst hl
        rw [hqueues, Function.update_self] at hv
        refine ⟨h.call_ne hqueue hv, h.waits l v ?_⟩
        rw [hqueue]
        rcases List.mem_append.mp hv with hv | hv <;> simp [hv]
      · rw [hqueues, Function.update_of_ne hl] at hv
        have hv := h.waits l v hv
        refine ⟨fun heq => hl ?_, hv⟩
        rw [heq, hw] at hv
        exact (congrArg Slots.Call.lane (Option.some.inj hv)).symm
    rw [hcalls, List.getElem?_set_ne hother.1.symm]
    exact hother.2
  · intro i l p hi
    have hne : i ≠ w.call := by
      rintro rfl
      rw [hcalls, List.getElem?_set_self (List.getElem_of_getElem? hw).1] at hi
      exact hd (by rw [Option.some.inj hi])
    rw [hcalls, List.getElem?_set_ne hne.symm] at hi
    obtain ⟨v, hv, rfl⟩ := h.queued i l p hi
    refine ⟨v, ?_, rfl⟩
    by_cases hl : l = lane
    · subst hl
      rw [hqueue] at hv
      have hvw : v ≠ w := fun heq => hne (by rw [heq])
      simpa [hqueues, hvw] using hv
    · rw [hqueues, Function.update_of_ne hl]
      exact hv
  · intro l
    by_cases hl : l = lane
    · subst hl
      have hordered := h.ordered l
      rw [hqueue] at hordered
      rw [hqueues, Function.update_self]
      exact hordered.sublist ((List.sublist_cons_self w rest).append_left skipped)
    · rw [hqueues, Function.update_of_ne hl]
      exact h.ordered l

theorem pumped_from (rest : List Waiter) : ∀ (skipped : List Waiter) (s : Scheduler), Counts s →
    Queued s → s.queues lane = skipped ++ rest →
    (∀ w ∈ skipped, s.canRun c lane w.peerId = false) →
    Pumped c lane s (pumpFrom c lane skipped rest s) := by
  induction rest with
  | nil =>
    intro skipped s hcounts hqueued hqueue hblocked
    refine ⟨hcounts, hqueued, .refl, fun w hw => hblocked w ?_, fun _ _ => rfl⟩
    simpa [hqueue, pumpFrom] using hw
  | cons w rest ih =>
    intro skipped s hcounts hqueued hqueue hblocked
    have hw : s.calls[w.call]? = some ⟨lane, w.peerId, .waiting⟩ :=
      hqueued.waits lane w (by simp [hqueue])
    rw [pumpFrom]
    split
    · split
      · next hrun =>
        have hstart : Starts c s.calls (s.calls.set w.call ⟨lane, w.peerId, .running⟩) := by
          refine .first hw rfl (hcounts.canRun.mp hrun) fun j hj d hd hwaits hlane => ?_
          obtain ⟨dl, p, status⟩ := d
          obtain rfl : status = .waiting := hwaits
          obtain rfl : dl = lane := hlane
          obtain ⟨v, hv, rfl⟩ := hqueued.queued j dl p hd
          have hp := hqueued.waits dl v hv
          rw [hd] at hp
          obtain rfl : p = v.peerId := congrArg Slots.Call.peer (Option.some.inj hp)
          -- who came earlier is behind the walk
          have hskipped : v ∈ skipped := by
            have hordered := hqueued.ordered dl
            rw [hqueue, List.pairwise_append, List.pairwise_cons] at hordered
            rw [hqueue, List.mem_append, List.mem_cons] at hv
            rcases hv with hv | rfl | hv
            · exact hv
            · exact absurd hj (lt_irrefl _)
            · exact absurd hj (hordered.2.1.1 v hv).not_gt
          exact hcounts.blocked.mp (hblocked v hskipped)
        have hcounts' : Counts ((s.setQueue lane (skipped ++ rest)).start w.call lane w.peerId) :=
          Counts.start (s := s.setQueue lane (skipped ++ rest)) ⟨hcounts.lane, hcounts.peer⟩ hw
        have hqueued' : Queued ((s.setQueue lane (skipped ++ rest)).start w.call lane w.peerId) :=
          hqueued.leave (d := ⟨lane, w.peerId, .running⟩) hqueue (by simp) rfl rfl
        have hpumped := ih skipped _ hcounts' hqueued' (by simp [setQueue, Scheduler.start, settle,
          count]) fun v hv => hcounts'.blocked.mpr (hstart.blocks (hcounts.blocked.mp (hblocked v hv)))
        refine { hpumped with starts := hpumped.starts.head hstart, others := ?_ }
        intro l hl
        rw [hpumped.others l hl]
        exact Function.update_of_ne hl _ _
      · next hrun =>
        refine ih (skipped ++ [w]) s hcounts hqueued (by simp [hqueue]) fun v hv => ?_
        rcases List.mem_append.mp hv with hv | hv
        · exact hblocked v hv
        · obtain rfl := List.mem_singleton.mp hv
          simpa using hrun
    · next hfull =>
      refine ⟨hcounts, hqueued, .refl, fun v _ => ?_, fun _ _ => rfl⟩
      simp [Scheduler.canRun, hfull]

/-- What a pump did that has walked through the queues of these lanes. -/
structure PumpedAll (c : Limits) (past : Lane → Prop) (s t : Scheduler) : Prop where
  counts : Counts t
  queued : Queued t
  starts : Relation.ReflTransGen (Starts c) s.calls t.calls
  blocked : ∀ l, past l → ∀ w ∈ t.queues l, t.canRun c l w.peerId = false

theorem PumpedAll.next {past : Lane → Prop} (h : PumpedAll c past s t) (lane : Lane) :
    PumpedAll c (fun l => past l ∨ l = lane) s (pumpFrom c lane [] (t.queues lane) t) := by
  have hpumped : Pumped c lane t (pumpFrom c lane [] (t.queues lane) t) :=
    pumped_from _ [] t h.counts h.queued rfl (by simp)
  refine ⟨hpumped.counts, hpumped.queued, h.starts.trans hpumped.starts, fun l hl w hw => ?_⟩
  by_cases hlane : l = lane
  · subst hlane
    exact hpumped.blocked w hw
  · have hpast : past l := hl.resolve_right hlane
    rw [hpumped.others l hlane] at hw
    exact hpumped.counts.blocked.mpr
      (Slots.blocked_of_starts hpumped.starts (h.counts.blocked.mp (h.blocked l hpast w hw)))

theorem pumpedAll (hcounts : Counts s) (hqueued : Queued s) :
    PumpedAll c (fun _ => True) s (s.pump c) := by
  have hstart : PumpedAll c (fun _ => False) s s := ⟨hcounts, hqueued, .refl, fun _ hl => hl.elim⟩
  have hall := ((hstart.next .critical).next .control).next .background
  exact { hall with blocked := fun l _ => hall.blocked l (by cases l <;> simp) }

/-! ### Steps -/

/-- The calls after the event itself, before any call starts. -/
def entered (c : Limits) (s : Scheduler) : Event → List Call
  | .acquire lane peerId remaining =>
    let starts := s.queues (normalizeLane lane) = [] ∧
      s.canRun c (normalizeLane lane) (peerKey peerId)
    s.calls ++ [⟨normalizeLane lane, peerKey peerId,
      if ¬starts ∧ remaining.any (· ≤ 0) then .expired else .waiting⟩]
  | .release call =>
    match s.calls[call]? with
    | some ⟨lane, peerId, .running⟩ => s.calls.set call ⟨lane, peerId, .done⟩
    | _ => s.calls
  | .expire call =>
    match s.calls[call]? with
    | some ⟨lane, peerId, .waiting⟩ =>
      if (s.queues lane).any fun w => w.call = call && w.timer then
        s.calls.set call ⟨lane, peerId, .expired⟩
      else s.calls
    | _ => s.calls

structure Inv (c : Limits) (s : Scheduler) : Prop where
  counts : Counts s
  queued : Queued s
  within : Slots.Within c.laneLimits c.perPeerInFlight s.calls
  blocked : ∀ l, ∀ w ∈ s.queues l, s.canRun c l w.peerId = false

theorem inv_new : Inv c new where
  counts := ⟨fun _ => rfl, fun _ => rfl⟩
  queued := ⟨by simp [new], by simp [new], fun _ => .nil⟩
  within := ⟨fun _ => Nat.zero_le _, fun _ => Nat.zero_le _⟩
  blocked := by simp [new]

theorem Inv.settled (h : Inv c s) : Slots.Settled c.laneLimits c.perPeerInFlight s.calls := by
  intro d hd hwaits
  obtain ⟨i, hi⟩ := List.getElem?_of_mem hd
  obtain ⟨l, p, status⟩ := d
  obtain rfl : status = .waiting := hwaits
  obtain ⟨w, hw, rfl⟩ := h.queued.queued i l p hi
  have hp := h.queued.waits l w hw
  rw [hi] at hp
  obtain rfl : p = w.peerId := congrArg Slots.Call.peer (Option.some.inj hp)
  exact h.counts.blocked.mp (h.blocked l w hw)

theorem PumpedAll.inv {past : Lane → Prop} (h : PumpedAll c past s t) (hpast : ∀ l, past l)
    (hwithin : Slots.Within c.laneLimits c.perPeerInFlight s.calls) : Inv c t :=
  ⟨h.counts, h.queued, Slots.within_of_starts h.starts hwithin, fun l => h.blocked l (hpast l)⟩

/-- A step keeps the invariant, and whatever starts in it was first in its lane. -/
structure Stepped (c : Limits) (s : Scheduler) (e : Event) : Prop where
  inv : Inv c (s.step c e)
  starts : Relation.ReflTransGen (Starts c) (s.entered c e) (s.step c e).calls

theorem peerCount_giveBack :
    (s.giveBack lane peerId).peerCount p =
      if peerId = p then s.peerCount peerId - 1 else s.peerCount p := by
  change (Maps.get (s.giveBack lane peerId).peerInFlight p).getD 0 = _
  simp only [giveBack]
  generalize s.peerCount peerId = held
  have hremaining : (if held = 0 then 1 else held) - 1 = held - 1 := by split <;> omega
  rw [hremaining]
  by_cases hp : peerId = p
  · subst hp
    rw [if_pos rfl]
    split
    · next hzero => rw [Maps.get_delete, if_pos rfl, Option.getD_none, hzero]
    · rw [Maps.get_set_self, Option.getD_some]
  · rw [if_neg hp]
    split
    · rw [Maps.get_delete_ne hp]
      rfl
    · rw [Maps.get_set_ne hp]
      rfl

theorem Counts.leave (h : Counts s) (hcall : s.calls[call]? = some ⟨lane, peerId, .running⟩) :
    Counts ((s.giveBack lane peerId).settle call lane peerId .done) := by
  constructor
  · intro l
    have hleave := Slots.inLane_leave (l := l) (d := ⟨lane, peerId, .done⟩) hcall (by simp)
    by_cases hl : lane = l
    · subst hl
      simp only [Slots.Call.runsIn, and_self, decide_true, Bool.toNat_true] at hleave
      simp only [settle, giveBack, Function.update_self, h.lane]
      omega
    · simp only [Slots.Call.runsIn, hl, and_false, decide_false, Bool.toNat_false] at hleave
      simp only [settle, giveBack, Function.update_of_ne (Ne.symm hl), h.lane]
      omega
  · intro p
    have hleave := Slots.atPeer_leave (p := p) (d := ⟨lane, peerId, .done⟩) hcall (by simp)
    have hgiven : (s.giveBack lane peerId).peerCount p =
      if peerId = p then s.peerCount peerId - 1 else s.peerCount p := peerCount_giveBack
    refine hgiven.trans ?_
    by_cases hp : peerId = p
    · subst hp
      simp only [Slots.Call.runsAt, and_self, decide_true, Bool.toNat_true] at hleave
      simp only [if_true, settle, giveBack, h.peer]
      omega
    · simp only [Slots.Call.runsAt, hp, and_false, decide_false, Bool.toNat_false] at hleave
      simp only [if_neg hp, settle, giveBack, h.peer]
      omega

/-- The same calls wait in the same queues. -/
theorem Queued.same (h : Queued s) (hqueues : t.queues = s.queues)
    (hcalls : ∀ (i : ℕ) l p, t.calls[i]? = some (⟨l, p, .waiting⟩ : Call) ↔
      s.calls[i]? = some (⟨l, p, .waiting⟩ : Call)) : Queued t where
  waits := fun l w hw => (hcalls _ _ _).mpr (h.waits l w (hqueues ▸ hw))
  queued := fun i l p hi => hqueues ▸ h.queued i l p ((hcalls _ _ _).mp hi)
  ordered := fun l => hqueues ▸ h.ordered l

theorem waiting_concat (hd : d.status ≠ .waiting) :
    (calls ++ [d])[i]? = some ⟨l, p, .waiting⟩ ↔ calls[i]? = some ⟨l, p, .waiting⟩ := by
  rw [List.getElem?_append]
  split
  · rfl
  · next hlt =>
    rw [List.getElem?_eq_none (Nat.le_of_not_lt hlt)]
    refine iff_of_false (fun h => ?_) (by simp)
    obtain rfl := List.mem_singleton.mp (List.mem_of_getElem? h)
    exact hd rfl

theorem waiting_set {d' : Call} (hcall : calls[call]? = some d) (hd : d.status ≠ .waiting)
    (hd' : d'.status ≠ .waiting) :
    (calls.set call d')[i]? = some ⟨l, p, .waiting⟩ ↔ calls[i]? = some ⟨l, p, .waiting⟩ := by
  by_cases hi : i = call
  · subst hi
    rw [List.getElem?_set_self (List.getElem_of_getElem? hcall).1, hcall]
    refine iff_of_false (fun h => hd' ?_) fun h => hd ?_
    all_goals rw [Option.some.inj h]
  · rw [List.getElem?_set_ne (Ne.symm hi)]

/-- A call that came last is queued last. -/
theorem Queued.push (h : Queued s) {timer : Bool}
    (hcalls : t.calls = s.calls ++ [⟨lane, peerId, .waiting⟩])
    (hqueues : t.queues = Function.update s.queues lane
      (s.queues lane ++ [⟨s.calls.length, peerId, timer⟩])) : Queued t := by
  have hlt : ∀ l, ∀ w ∈ s.queues l, w.call < s.calls.length := fun l w hw =>
    (List.getElem_of_getElem? (h.waits l w hw)).1
  have hold : ∀ l, ∀ w ∈ s.queues l, t.calls[w.call]? = some ⟨l, w.peerId, .waiting⟩ := by
    intro l w hw
    rw [hcalls, List.getElem?_append_left (hlt l w hw)]
    exact h.waits l w hw
  constructor
  · intro l w hw
    by_cases hl : l = lane
    · subst hl
      rw [hqueues, Function.update_self] at hw
      rcases List.mem_append.mp hw with hw | hw
      · exact hold l w hw
      · obtain rfl := List.mem_singleton.mp hw
        simp [hcalls]
    · rw [hqueues, Function.update_of_ne hl] at hw
      exact hold l w hw
  · intro i l p hi
    rw [hcalls, List.getElem?_append] at hi
    split at hi
    · obtain ⟨w, hw, rfl⟩ := h.queued i l p hi
      refine ⟨w, ?_, rfl⟩
      by_cases hl : l = lane
      · subst hl
        simp [hqueues, hw]
      · rwa [hqueues, Function.update_of_ne hl]
    · next hge =>
      have hsub : i - s.calls.length < 1 := (List.getElem_of_getElem? hi).1
      obtain rfl : i = s.calls.length := by omega
      obtain rfl : lane = l := by simpa using congrArg (Option.map Slots.Call.lane) hi
      exact ⟨⟨s.calls.length, peerId, timer⟩, by simp [hqueues], rfl⟩
  · intro l
    by_cases hl : l = lane
    · subst hl
      rw [hqueues, Function.update_self, List.pairwise_append]
      refine ⟨h.ordered l, List.pairwise_singleton _ _, fun w hw v hv => ?_⟩
      obtain rfl := List.mem_singleton.mp hv
      exact hlt l w hw
    · rw [hqueues, Function.update_of_ne hl]
      exact h.ordered l

/-- As many calls run as before. -/
theorem Counts.same (h : Counts s) (hin : t.inFlight = s.inFlight)
    (hpeers : t.peerInFlight = s.peerInFlight)
    (hlane : ∀ l, Slots.inLane t.calls l = Slots.inLane s.calls l)
    (hpeer : ∀ p, Slots.atPeer t.calls p = Slots.atPeer s.calls p) : Counts t := by
  constructor
  · intro l
    rw [hin, h.lane, hlane]
  · intro p
    rw [hpeer, ← h.peer, peerCount, peerCount, hpeers]

/-- One more call that does not run. -/
theorem Counts.concat (h : Counts s) (hd : d.status ≠ .running) (hcalls : t.calls = s.calls ++ [d])
    (hin : t.inFlight = s.inFlight) (hpeers : t.peerInFlight = s.peerInFlight) : Counts t := by
  refine h.same hin hpeers (fun l => ?_) fun p => ?_
  all_goals rw [hcalls]
  · simp [Slots.inLane, Slots.Call.runsIn, hd]
  · simp [Slots.atPeer, Slots.Call.runsAt, hd]

theorem within_of_counts (h : Slots.Within c.laneLimits c.perPeerInFlight s.calls)
    (hs : Counts s) (ht : Counts t) (hin : t.inFlight = s.inFlight)
    (hpeers : t.peerInFlight = s.peerInFlight) :
    Slots.Within c.laneLimits c.perPeerInFlight t.calls := by
  refine h.of_le (fun l => ?_) fun p => ?_
  · rw [← hs.lane, ← ht.lane, hin]
  · rw [← hs.peer, ← ht.peer, peerCount, peerCount, hpeers]

theorem Inv.acquire (h : Inv c s) (lane peerId : JsString) (remaining : Option ℚ) :
    Stepped c s (.acquire lane peerId remaining) := by
  let key := peerKey peerId
  let added : Scheduler :=
    { s with calls := s.calls ++ [(⟨normalizeLane lane, key, .waiting⟩ : Call)] }
  have hadded : Counts added := h.counts.concat (d := ⟨_, _, _⟩) (by simp) rfl rfl rfl
  have hwithin : Slots.Within c.laneLimits c.perPeerInFlight added.calls :=
    within_of_counts h.within h.counts hadded rfl rfl
  have hlast : added.calls[s.calls.length]? = some ⟨normalizeLane lane, key, .waiting⟩ := by
    simp [added]
  by_cases hstart : s.queues (normalizeLane lane) = [] ∧ s.canRun c (normalizeLane lane) key
  · have hstep : s.step c (.acquire lane peerId remaining) =
        added.start s.calls.length (normalizeLane lane) key := if_pos hstart
    have hentered : s.entered c (.acquire lane peerId remaining) = added.calls := by
      simp [entered, added, key, hstart]
    have hfirst : Starts c added.calls
        (added.start s.calls.length (normalizeLane lane) key).calls := by
      refine .first hlast rfl (hadded.canRun.mp hstart.2) fun j hj d hd hwaits hlane => ?_
      obtain ⟨l, p, status⟩ := d
      obtain rfl : status = .waiting := hwaits
      obtain rfl : l = normalizeLane lane := hlane
      rw [List.getElem?_append_left hj] at hd
      obtain ⟨w, hw, -⟩ := h.queued.queued j _ p hd
      rw [hstart.1] at hw
      cases hw
    have hcounts := hadded.start hlast
    refine ⟨?_, ?_⟩
    · rw [hstep]
      refine ⟨hcounts, ?_, hfirst.within hwithin, fun l w hw => ?_⟩
      · have hcalls : (added.start s.calls.length (normalizeLane lane) key).calls =
            s.calls ++ [⟨normalizeLane lane, key, .running⟩] := by
          simp [added, Scheduler.start, settle, count]
        exact h.queued.same rfl fun i l p => by rw [hcalls, waiting_concat (by simp)]
      · exact hcounts.blocked.mpr (hfirst.blocks (hadded.blocked.mp (h.blocked l w hw)))
    · rw [hstep, hentered]
      exact .single hfirst
  · by_cases hlate : remaining.any (· ≤ 0)
    · have hstep : s.step c (.acquire lane peerId remaining) =
          (added.count (normalizeLane lane) fun st =>
            { st with expiredInQueue := st.expiredInQueue + 1 }).settle s.calls.length
            (normalizeLane lane) key .expired := (if_neg hstart).trans (if_pos hlate)
      have hcalls : (s.step c (.acquire lane peerId remaining)).calls =
          s.calls ++ [⟨normalizeLane lane, key, .expired⟩] := by
        simp [hstep, added, settle, count]
      have hcounts : Counts (s.step c (.acquire lane peerId remaining)) :=
        h.counts.concat (d := ⟨_, _, _⟩) (by simp) hcalls (by rw [hstep]; rfl) (by rw [hstep]; rfl)
      refine ⟨⟨hcounts, ?_, ?_, fun l w hw => ?_⟩, ?_⟩
      · refine h.queued.same (by rw [hstep]; rfl) fun i l p => ?_
        rw [hcalls, waiting_concat (by simp)]
      · exact within_of_counts h.within h.counts hcounts (by rw [hstep]; rfl) (by rw [hstep]; rfl)
      · rw [hstep] at hw ⊢
        exact h.blocked l w hw
      · rw [hcalls]
        simp only [entered]
        rw [if_pos ⟨hstart, hlate⟩]
    · let queue := s.queues (normalizeLane lane) ++ [⟨s.calls.length, key, remaining.isSome⟩]
      let queued := (added.setQueue (normalizeLane lane) queue).count (normalizeLane lane) fun st =>
        { st with queued := st.queued + 1, maxQueueDepth := max st.maxQueueDepth queue.length }
      have hstep : s.step c (.acquire lane peerId remaining) = queued.pump c :=
        (if_neg hstart).trans (if_neg hlate)
      have hpumped : PumpedAll c (fun _ => True) queued (queued.pump c) :=
        pumpedAll ⟨hadded.lane, hadded.peer⟩ (h.queued.push (t := queued) rfl rfl)
      have hentered : s.entered c (.acquire lane peerId remaining) = queued.calls := by
        simp only [entered]
        rw [if_neg fun hboth => hlate hboth.2]
        rfl
      refine ⟨?_, ?_⟩
      · rw [hstep]
        exact hpumped.inv (fun _ => trivial) hwithin
      · rw [hstep, hentered]
        exact hpumped.starts

theorem Inv.release (h : Inv c s) (call : ℕ) : Stepped c s (.release call) := by
  cases hcall : s.calls[call]? with
  | none =>
    have hstep : s.step c (.release call) = s := by simp [step, Scheduler.release, hcall]
    have hentered : s.entered c (.release call) = s.calls := by simp [entered, hcall]
    exact ⟨by rwa [hstep], by rw [hstep, hentered]⟩
  | some d =>
    obtain ⟨lane, peerId, status⟩ := d
    cases status with
    | running =>
      let freed := (s.giveBack lane peerId).settle call lane peerId .done
      have hstep : s.step c (.release call) = freed.pump c := by
        simp [step, Scheduler.release, hcall, freed]
      have hentered : s.entered c (.release call) = freed.calls := by
        simp [entered, hcall, freed, settle, giveBack]
      have hqueued : Queued freed :=
        h.queued.same rfl fun i l p => waiting_set hcall (by simp) (by simp)
      have hpumped : PumpedAll c (fun _ => True) freed (freed.pump c) :=
        pumpedAll (h.counts.leave hcall) hqueued
      refine ⟨?_, by rw [hstep, hentered]; exact hpumped.starts⟩
      rw [hstep]
      refine hpumped.inv (fun _ => trivial) (h.within.of_le (fun l => ?_) fun p => ?_)
      · exact (Nat.le_add_right _ _).trans (Slots.inLane_leave (d := ⟨lane, peerId, .done⟩) hcall
          (by simp)).le
      · exact (Nat.le_add_right _ _).trans (Slots.atPeer_leave (d := ⟨lane, peerId, .done⟩) hcall
          (by simp)).le
    | _ =>
      have hstep : s.step c (.release call) = s := by simp [step, Scheduler.release, hcall]
      have hentered : s.entered c (.release call) = s.calls := by simp [entered, hcall]
      exact ⟨by rwa [hstep], by rw [hstep, hentered]⟩

/-- A waiter of a queue, where the queue falls apart. -/
theorem Queued.split (h : Queued s) (hw : w ∈ s.queues lane) :
    ∃ skipped rest, s.queues lane = skipped ++ w :: rest ∧
      (s.queues lane).filter (fun v => v.call ≠ w.call) = skipped ++ rest := by
  obtain ⟨skipped, rest, hqueue⟩ := List.append_of_mem hw
  have hne : ∀ v ∈ skipped ++ rest, v.call ≠ w.call := fun v hv => h.call_ne hqueue hv
  refine ⟨skipped, rest, hqueue, ?_⟩
  have hskipped : skipped.filter (fun v => v.call ≠ w.call) = skipped :=
    List.filter_eq_self.mpr fun v hv => by simpa using hne v (List.mem_append_left _ hv)
  have hrest : rest.filter (fun v => v.call ≠ w.call) = rest :=
    List.filter_eq_self.mpr fun v hv => by simpa using hne v (List.mem_append_right _ hv)
  rw [hqueue, List.filter_append, List.filter_cons_of_neg (by simp), hskipped, hrest]

theorem Inv.expire (h : Inv c s) (call : ℕ) : Stepped c s (.expire call) := by
  have hnone : s.step c (.expire call) = s → s.entered c (.expire call) = s.calls →
      Stepped c s (.expire call) := fun hstep hentered =>
    ⟨by rwa [hstep], by rw [hstep, hentered]⟩
  cases hcall : s.calls[call]? with
  | none => exact hnone (by simp [step, Scheduler.expire, hcall]) (by simp [entered, hcall])
  | some d =>
    obtain ⟨lane, peerId, status⟩ := d
    cases status with
    | waiting =>
      by_cases hany : ((s.queues lane).any fun w => w.call = call && w.timer) = true
      · obtain ⟨w, hw, htimer⟩ := List.any_eq_true.mp hany
        obtain ⟨hwcall, -⟩ : w.call = call ∧ w.timer = true := by simpa using htimer
        subst hwcall
        obtain ⟨skipped, rest, hqueue, hfilter⟩ := h.queued.split hw
        have hstep : s.step c (.expire w.call) = ((s.setQueue lane (skipped ++ rest)).count lane
            fun st => { st with expiredInQueue := st.expiredInQueue + 1 }).settle w.call lane peerId
            .expired := by
          simp only [step, Scheduler.expire, hcall]
          rw [if_pos hany, hfilter]
        have hcalls : (s.step c (.expire w.call)).calls =
            s.calls.set w.call ⟨lane, peerId, .expired⟩ := by
          rw [hstep]
          rfl
        have hcounts : Counts (s.step c (.expire w.call)) := by
          refine h.counts.same (by rw [hstep]; rfl) (by rw [hstep]; rfl) (fun l => ?_) fun p => ?_
          all_goals rw [hcalls]
          · exact Slots.inLane_leave (d := ⟨lane, peerId, .expired⟩) hcall (by simp)
          · exact Slots.atPeer_leave (d := ⟨lane, peerId, .expired⟩) hcall (by simp)
        have hqueued : Queued (s.step c (.expire w.call)) :=
          h.queued.leave (d := ⟨lane, peerId, .expired⟩) hqueue (by simp) hcalls (by rw [hstep]; rfl)
        refine ⟨⟨hcounts, hqueued, ?_, fun l v hv => ?_⟩, ?_⟩
        · exact within_of_counts h.within h.counts hcounts (by rw [hstep]; rfl) (by rw [hstep]; rfl)
        · have hold : v ∈ s.queues l := by
            rw [hstep] at hv
            by_cases hl : l = lane
            · subst hl
              simp only [setQueue, count, settle, Function.update_self] at hv
              rw [hqueue]
              rcases List.mem_append.mp hv with hv | hv <;> simp [hv]
            · simpa only [setQueue, count, settle, Function.update_of_ne hl] using hv
          rw [hstep]
          exact h.blocked l v hold
        · have hentered : s.entered c (.expire w.call) =
              s.calls.set w.call ⟨lane, peerId, .expired⟩ := by simp only [entered, hcall, hany, if_true]
          rw [hcalls, hentered]
      · exact hnone (by simp [step, Scheduler.expire, hcall, hany]) (by simp [entered, hcall, hany])
    | _ => exact hnone (by simp [step, Scheduler.expire, hcall]) (by simp [entered, hcall])

/-! ### Runs -/

theorem Inv.stepped (h : Inv c s) (e : Event) : Stepped c s e := by
  cases e with
  | acquire lane peerId remaining => exact h.acquire lane peerId remaining
  | release call => exact h.release call
  | expire call => exact h.expire call

theorem inv_run (es : List Event) : Inv c (run c es) := by
  induction es using List.reverseRecOn with
  | nil => exact inv_new
  | append_singleton es e ih =>
    rw [run, List.foldl_append]
    exact (Inv.stepped ih e).inv

/-- A call that is done stays so. -/
theorem done_of_starts {calls' : List Call} (h : Relation.ReflTransGen (Starts c) calls calls')
    (hd : calls[call]? = some d) (hdone : d.status = .done) : calls'[call]? = some d := by
  induction h with
  | refl => exact hd
  | tail _ hstep ih =>
    obtain ⟨hfirst, hwaits, -, -⟩ := hstep
    rw [List.getElem?_set_ne]
    · exact ih
    · rintro rfl
      rw [ih] at hfirst
      rw [← Option.some.inj hfirst, hdone] at hwaits
      cases hwaits

theorem done_entered (hd : s.calls[call]? = some d) (hdone : d.status = .done) (e : Event) :
    (s.entered c e)[call]? = some d := by
  have hset : ∀ {other : ℕ} {d' d'' : Call}, s.calls[other]? = some d' → d'.status ≠ .done →
      (s.calls.set other d'')[call]? = some d := by
    intro other d' d'' hother hne
    rw [List.getElem?_set_ne]
    · exact hd
    · rintro rfl
      rw [hd] at hother
      exact hne (Option.some.inj hother ▸ hdone)
  cases e with
  | acquire lane peerId remaining =>
    exact (List.getElem?_append_left (List.getElem_of_getElem? hd).1).trans hd
  | release other =>
    simp only [entered]
    split
    · next hother => exact hset hother (by simp)
    · exact hd
  | expire other =>
    simp only [entered]
    split
    · next hother =>
      split
      · exact hset hother (by simp)
      · exact hd
    · exact hd

theorem done_run (h : Inv c s) (hd : s.calls[call]? = some d) (hdone : d.status = .done)
    (es : List Event) : (es.foldl (step c) s).calls[call]? = some d := by
  induction es generalizing s with
  | nil => exact hd
  | cons e es ih =>
    have hstepped := h.stepped e
    exact ih hstepped.inv (done_of_starts hstepped.starts (done_entered hd hdone e) hdone)

/-- In every run of `acquire`, releases and timers the limits hold, nobody waits who could run, each
    step starts first, among the calls of a lane that can run, the one that came first, and a
    release function does nothing from its second call on. -/
theorem lanes_scheduled (c : Limits) (es : List Event) :
    Slots.Within c.laneLimits c.perPeerInFlight (run c es).calls ∧
    Slots.Settled c.laneLimits c.perPeerInFlight (run c es).calls ∧
    (∀ e, Relation.ReflTransGen (Starts c) ((run c es).entered c e) ((run c es).step c e).calls) ∧
    ∀ call lane peerId later, (run c es).calls[call]? = some ⟨lane, peerId, .running⟩ →
      (run c (es ++ .release call :: later)).release c call =
        run c (es ++ .release call :: later) := by
  have hinv : Inv c (run c es) := inv_run es
  refine ⟨hinv.within, hinv.settled, fun e => (hinv.stepped e).starts, ?_⟩
  intro call lane peerId later hcall
  have hstepped := hinv.stepped (.release call)
  have hfreed : ((run c es).entered c (.release call))[call]? = some ⟨lane, peerId, .done⟩ := by
    simp only [entered, hcall]
    exact List.getElem?_set_self (List.getElem_of_getElem? hcall).1
  have hdone : (run c (es ++ .release call :: later)).calls[call]? = some ⟨lane, peerId, .done⟩ := by
    rw [run, List.foldl_append, List.foldl_cons]
    exact done_run hstepped.inv (done_of_starts hstepped.starts hfreed rfl) rfl later
  simp [Scheduler.release, hdone]

/-! ### Two lanes and one peer -/

def oneEach : Limits := ⟨fun _ => 1, 1, fun _ => Nat.one_pos, Nat.one_pos⟩

/-- A critical call to `p` runs, a control call to `p` waits, then another critical one. -/
def twoWaiting : List Event :=
  [.acquire (js "critical") (js "p") none, .acquire (js "control") (js "p") none,
    .acquire (js "critical") (js "p") none]

/-- A call that came later, in a lane that is pumped earlier, starts first. -/
theorem lane_before_arrival : ¬∀ (c : Limits) (es : List Event) (e : Event) (i j : ℕ) (a b : Call),
    i < j → ((run c es).entered c e)[i]? = some a → a.status = .waiting →
    Free c ((run c es).entered c e) a.lane a.peer →
    ((run c es).entered c e)[j]? = some b → b.status = .waiting →
    (((run c es).step c e).calls[j]?).map Slots.Call.status = some .running →
    (((run c es).step c e).calls[i]?).map Slots.Call.status = some .running := by
  intro h
  have hstarted := h oneEach twoWaiting (.release 0) 1 2 ⟨.control, js "p", .waiting⟩
    ⟨.critical, js "p", .waiting⟩ (by decide) rfl rfl (by decide) rfl rfl rfl
  exact absurd hstarted (by decide)

/-- The freed slot is given to the waiter of the first lane. -/
theorem lanes_scheduled_two :
    Slots.Within oneEach.laneLimits oneEach.perPeerInFlight (run oneEach twoWaiting).calls ∧
    (run oneEach (twoWaiting ++ [.release 0])).release oneEach 0 =
      run oneEach (twoWaiting ++ [.release 0]) := by
  obtain ⟨hwithin, -, -, hrelease⟩ := lanes_scheduled oneEach twoWaiting
  exact ⟨hwithin, hrelease 0 .critical (js "p") [] rfl⟩

end Scheduler

end Truyn.Rpc
