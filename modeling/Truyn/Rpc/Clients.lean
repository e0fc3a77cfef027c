import Truyn.Transport.Pool
import Truyn.Schemes.Along
import Truyn.Schemes.Tables

/-! rpc:clients | the pooled clients of `QuicDiscoveryRpc`, and the requests that lease them

    A request races its operation against a timer. The operation waits for a client, leases it and asks
    it; whoever ends the race gives the lease back, if there is one by then. A client that comes later
    is leased all the same. -/

namespace Truyn.Rpc.Clients
open Transport (PeerRecord Platform)

structure Options where
  supersededRetries : ℕ
  maxClients : ℕ
  clientIdleMs : ℤ

/-- Why an operation is rejected. `remote` is a rejection by the peer, with `remoteRejection`. -/
inductive Failure
  | timeout
  | superseded
  | remote
  | other
  deriving DecidableEq

structure Entry where
  client : ℕ
  binding : JsString
  peer : PeerRecord
  lastUsedAt : ℤ

/-- The promise of a connect: it may wait for the disconnect of its own client, or be that of the
    connect that took its place. -/
inductive Promise
  | connecting
  | disconnecting
  | follows (attempt : ℕ)
  | resolved (client : ℕ)
  | rejected (failure : Failure)

structure Attempt where
  peer : PeerRecord
  binding : JsString
  discarded : Bool
  promise : Promise

/-- Where the operation of a request is; `own` says that it made the connect it waits for. -/
inductive Work
  | idle
  | connecting (attempt : ℕ) (own : Bool)
  | delivered (client : ℕ)
  | requesting
  | over

/-- Where the race is: not begun, open, decided and not yet left, left. -/
inductive Race
  | queued
  | open
  | rejected (failure : Failure)
  | fulfilled
  | settled
  deriving DecidableEq

/-- A request, with its `state`: the client, whether it is leased, and whether there is a
    `cancelledError`. -/
structure Request where
  peer : PeerRecord
  deadlineAt : ℤ
  client : Option ℕ
  clientLeased : Bool
  cancelled : Bool
  supersededAttempt : ℕ
  work : Work
  race : Race

/-- `disconnected` are the clients in `disconnectingClients`. -/
structure Pool where
  clients : List (JsString × Entry)
  connectingByNodeId : List (JsString × ℕ)
  attempts : List Attempt
  clientUsers : ℕ → ℕ
  retiredClients : List ℕ
  disconnected : List ℕ
  sweepTimer : Bool
  evictedIdle : ℕ
  evictedOverCap : ℕ
  requests : List Request

inductive Event
  | request (peer : PeerRecord) (timeoutMs now : ℤ)
  /-- The scheduler grants a slot or gives up; `partitioned` is what the fault controller says. -/
  | slot (request : ℕ) (granted partitioned : Bool) (now : ℤ)
  | connected (attempt : ℕ) (client : Option ℕ) (now : ℤ)
  | disconnected (attempt : ℕ)
  | follow (attempt : ℕ)
  /-- The operation goes on: with the connect that it waited for, with its client, with the answer. -/
  | resume (request : ℕ)
  | lease (request : ℕ)
  | reply (request : ℕ) (failure : Option Failure)
  | timer (request : ℕ)
  /-- `catch` and `finally` run. -/
  | settle (request : ℕ) (partitioned : Bool) (now : ℤ)
  | closed (nodeId : JsString) (client : ℕ)
  | forget (nodeId : JsString)
  | sweep (now : ℤ)
  | close

def peerSequence (peer : PeerRecord) : ℤ := peer.sequence.getD (-1)

def sameOrNewerGeneration (candidate reference : PeerRecord) : Bool :=
  decide (candidate.nodeId = reference.nodeId) &&
    decide (peerSequence reference ≤ peerSequence candidate)

/-- The operation is rejected; that decides the race if it is open. -/
def Request.reject (r : Request) (failure : Failure) : Request :=
  { r with work := .over, race := if r.race = .open then .rejected failure else r.race }

namespace Pool

def new : Pool := ⟨[], [], [], fun _ => 0, [], [], false, 0, 0, []⟩

variable (π : Platform) (o : Options) (s : Pool)

/-! ### Leases -/

def disconnect (client : ℕ) : Pool :=
  if client ∈ s.disconnected then s else { s with disconnected := s.disconnected ++ [client] }

def acquireClient (client : ℕ) : Pool :=
  { s with clientUsers := Function.update s.clientUsers client (s.clientUsers client + 1) }

def touchClient (nodeId : JsString) (client : ℕ) (now : ℤ) : Pool :=
  match Maps.get s.clients nodeId with
  | some entry =>
    if entry.client = client then
      { s with clients := Maps.set nodeId { entry with lastUsedAt := now } s.clients }
    else s
  | none => s

def releaseClient (nodeId : JsString) (client : ℕ) (now : ℤ) : Pool :=
  let s := s.touchClient nodeId client now
  let users := if s.clientUsers client = 0 then 1 else s.clientUsers client
  let s := { s with clientUsers := Function.update s.clientUsers client (users - 1) }
  if users - 1 = 0 ∧ client ∈ s.retiredClients then s.disconnect client else s

def retireClient (nodeId : JsString) (client : ℕ) : Pool :=
  let clients := match Maps.get s.clients nodeId with
    | some entry => if entry.client = client then Maps.delete nodeId s.clients else s.clients
    | none => s.clients
  let s := { s with clients := clients, retiredClients := s.retiredClients ++ [client] }
  if s.clientUsers client = 0 then s.disconnect client else s

/-- The loop of `sweepClients` over the idle clients. -/
def sweepIdle (now : ℤ) : List (JsString × Entry) → ℕ → Pool → Pool
  | [], _, s => s
  | (nodeId, entry) :: idle, overCap, s =>
    let expired := decide (o.clientIdleMs ≤ now - entry.lastUsedAt)
    if !expired && overCap = 0 then sweepIdle now idle overCap s
    else
      let s := if expired then { s with evictedIdle := s.evictedIdle + 1 }
        else { s with evictedOverCap := s.evictedOverCap + 1 }
      sweepIdle now idle (overCap - 1) (s.retireClient nodeId entry.client)

def sweepClients (now : ℤ) : Pool :=
  let idle := s.clients.filter fun p => decide (s.clientUsers p.2.client = 0)
  let sorted := idle.insertionSort fun p q => p.2.lastUsedAt ≤ q.2.lastUsedAt
  let s := sweepIdle o now sorted (s.clients.length - o.maxClients) s
  if s.clients.isEmpty then { s with sweepTimer := false } else s

/-! ### Connecting -/

def discard (attempt : ℕ) (nodeId : JsString) : Pool :=
  { s with
    attempts := s.attempts.modify attempt fun a => { a with discarded := true }
    connectingByNodeId := Maps.delete nodeId s.connectingByNodeId }

def pending (nodeId : JsString) : Option (ℕ × Attempt) :=
  (Maps.get s.connectingByNodeId nodeId).bind fun i => s.attempts[i]?.map fun a => (i, a)

def discardPending (nodeId : JsString) (unwanted : Attempt → Bool) : Pool :=
  match s.pending nodeId with
  | some (i, a) => if unwanted a then s.discard i nodeId else s
  | none => s

/-- The client is disconnected, whoever uses it. -/
def dropClient (nodeId : JsString) (unwanted : Entry → Bool) : Pool :=
  match Maps.get s.clients nodeId with
  | some existing =>
    if unwanted existing then
      { s with clients := Maps.delete nodeId s.clients }.disconnect existing.client
    else s
  | none => s

def forgetBinding (nodeId binding : JsString) : Pool :=
  (s.discardPending nodeId fun a => decide (a.binding = binding)).dropClient nodeId
    fun existing => decide (existing.binding = binding)

def connect (peer : PeerRecord) (binding : JsString) : Pool × Work :=
  let s := s.discardPending peer.nodeId fun _ => true
  ({ s with
    attempts := s.attempts ++ [⟨peer, binding, false, .connecting⟩]
    connectingByNodeId := Maps.set peer.nodeId s.attempts.length s.connectingByNodeId },
    .connecting s.attempts.length true)

/-- A connect of this binding or generation that is pending is shared. -/
def connectOrWait (peer : PeerRecord) (binding : JsString) : Pool × Work :=
  match s.pending peer.nodeId with
  | some (i, a) =>
    if !a.discarded && (decide (a.binding = binding) || sameOrNewerGeneration a.peer peer) then
      (s, .connecting i false)
    else s.connect peer binding
  | none => s.connect peer binding

/-- `client(peer)`, up to its first await. `none` is thrown: the peer has no QUIC endpoint. -/
def client (peer : PeerRecord) (now : ℤ) : Pool × Option Work :=
  match Transport.selectedQuicEndpoint π peer with
  | none => (s, none)
  | some (value, _) =>
    let binding := Transport.peerRecordBinding peer value
    match Maps.get s.clients peer.nodeId with
    | some existing =>
      if existing.binding = binding ∨ sameOrNewerGeneration existing.peer peer then
        ({ s with clients := Maps.set peer.nodeId { existing with lastUsedAt := now } s.clients },
          some (.delivered existing.client))
      else ((s.forgetBinding peer.nodeId existing.binding).connectOrWait peer binding).map id some
    | none => (s.connectOrWait peer binding).map id some

def setPromise (attempt : ℕ) (promise : Promise) : Pool :=
  { s with attempts := s.attempts.modify attempt fun a => { a with promise := promise } }

def connected (attempt : ℕ) (client : Option ℕ) (now : ℤ) : Pool :=
  match s.attempts[attempt]? with
  | some ⟨peer, binding, discarded, .connecting⟩ =>
    match client with
    | none => s.setPromise attempt (.rejected .other)
    | some client =>
      if discarded ∨ Maps.get s.connectingByNodeId peer.nodeId ≠ some attempt then
        (s.disconnect client).setPromise attempt .disconnecting
      else
        { s with
          clients := Maps.set peer.nodeId ⟨client, binding, peer, now⟩ s.clients
          sweepTimer := true }.setPromise attempt (.resolved client)
  | _ => s

/-- The client of a connect that lost its place is disconnected: what took its place is given. -/
def replaced (attempt : ℕ) : Pool :=
  match s.attempts[attempt]? with
  | some ⟨peer, _, _, .disconnecting⟩ =>
    let pooled := match Maps.get s.clients peer.nodeId with
      | some entry =>
        if sameOrNewerGeneration entry.peer peer then Promise.resolved entry.client
        else .rejected .superseded
      | none => .rejected .superseded
    match s.pending peer.nodeId with
    | some (i, a) =>
      if !a.discarded && sameOrNewerGeneration a.peer peer then s.setPromise attempt (.follows i)
      else s.setPromise attempt pooled
    | none => s.setPromise attempt pooled
  | _ => s

def follow (attempt : ℕ) : Pool :=
  match s.attempts[attempt]?.map Attempt.promise with
  | some (.follows i) =>
    match s.attempts[i]?.map Attempt.promise with
    | some (.resolved client) => s.setPromise attempt (.resolved client)
    | some (.rejected failure) => s.setPromise attempt (.rejected failure)
    | _ => s
  | _ => s

/-! ### Requests -/

def put (request : ℕ) (r : Request) : Pool := { s with requests := s.requests.set request r }

/-- One round of `#boundedAttempts`, up to the race. -/
def attempt (request : ℕ) (r : Request) (partitioned : Bool) (now : ℤ) : Pool :=
  let r := { r with client := none, clientLeased := false, cancelled := false }
  if partitioned then s.put request { r with work := .over, race := .rejected .other }
  else if r.deadlineAt - now ≤ 0 then
    s.put request { r with cancelled := true, work := .over, race := .rejected .timeout }
  else
    let (s, work) := s.client π r.peer now
    match work with
    | some work => s.put request { r with work := work, race := .open }
    | none => s.put request { r with work := .over, race := .rejected .other }

/-- `bounded`, up to the scheduler. -/
def bounded (peer : PeerRecord) (timeoutMs now : ℤ) : Pool :=
  let r : Request := ⟨peer, now + timeoutMs, none, false, decide (timeoutMs ≤ 0), 0, .idle,
    if timeoutMs ≤ 0 then .settled else .queued⟩
  { s with requests := s.requests ++ [r] }

def slot (request : ℕ) (granted partitioned : Bool) (now : ℤ) : Pool :=
  match s.requests[request]? with
  | none => s
  | some r =>
    match r.race with
    | .queued =>
      if granted then s.attempt π request r partitioned now
      else s.put request { r with cancelled := true, race := .settled }
    | _ => s

/-- Who made the connect takes it out of the map, whatever it gave. -/
def connectDone (nodeId : JsString) (attempt : ℕ) (own : Bool) : Pool :=
  if own ∧ Maps.get s.connectingByNodeId nodeId = some attempt then
    { s with connectingByNodeId := Maps.delete nodeId s.connectingByNodeId }
  else s

def resume (request : ℕ) : Pool :=
  match s.requests[request]? with
  | none => s
  | some r =>
    match r.work with
    | .connecting i own =>
      match s.attempts[i]?.map Attempt.promise with
      | some (.resolved client) =>
        (s.connectDone r.peer.nodeId i own).put request { r with work := .delivered client }
      | some (.rejected failure) =>
        (s.connectDone r.peer.nodeId i own).put request (r.reject failure)
      | _ => s
    | _ => s

/-- `#leasedClient`, once there is a client. -/
def lease (request : ℕ) : Pool :=
  match s.requests[request]? with
  | none => s
  | some r =>
    match r.work with
    | .delivered client =>
      let r := { r with client := some client, clientLeased := true }
      (s.acquireClient client).put request
        (if r.cancelled then r.reject .timeout else { r with work := .requesting })
    | _ => s

def reply (request : ℕ) (failure : Option Failure) : Pool :=
  match s.requests[request]? with
  | none => s
  | some r =>
    match r.work with
    | .requesting =>
      match failure with
      | some failure => s.put request (r.reject failure)
      | none => s.put request
        { r with work := .over, race := if r.race = .open then .fulfilled else r.race }
    | _ => s

def timer (request : ℕ) : Pool :=
  match s.requests[request]? with
  | none => s
  | some r =>
    if r.race = .open then s.put request { r with cancelled := true, race := .rejected .timeout } else s

/-- `finally`: the lease is given back, if there is one. -/
def giveBack (request : ℕ) (r : Request) (now : ℤ) : Pool :=
  match r.client with
  | some client =>
    if r.clientLeased then
      (s.put request { r with clientLeased := false }).releaseClient r.peer.nodeId client now
    else s.put request r
  | none => s.put request r

def retireFailed (r : Request) (failure : Failure) : Pool :=
  match r.client with
  | some client => if failure = .remote then s else s.retireClient r.peer.nodeId client
  | none => s

def settle (request : ℕ) (partitioned : Bool) (now : ℤ) : Pool :=
  match s.requests[request]? with
  | none => s
  | some r =>
    match r.race with
    | .rejected failure =>
      let s := s.retireFailed r failure
      if failure = .superseded ∧ r.supersededAttempt < o.supersededRetries ∧ now < r.deadlineAt then
        let r := { r with supersededAttempt := r.supersededAttempt + 1 }
        (s.giveBack request r now).attempt π request r partitioned now
      else s.giveBack request { r with race := .settled } now
    | .fulfilled => s.giveBack request { r with race := .settled } now
    | _ => s

/-! ### Events -/

def closed (nodeId : JsString) (client : ℕ) : Pool :=
  match Maps.get s.clients nodeId with
  | some entry =>
    if entry.client = client then { s with clients := Maps.delete nodeId s.clients } else s
  | none => s

def forget (nodeId : JsString) : Pool :=
  (s.discardPending nodeId fun _ => true).dropClient nodeId fun _ => true

def step : Event → Pool
  | .request peer timeoutMs now => s.bounded peer timeoutMs now
  | .slot request granted partitioned now => s.slot π request granted partitioned now
  | .connected attempt client now => s.connected attempt client now
  | .disconnected attempt => s.replaced attempt
  | .follow attempt => s.follow attempt
  | .resume request => s.resume request
  | .lease request => s.lease request
  | .reply request failure => s.reply request failure
  | .timer request => s.timer request
  | .settle request partitioned now => s.settle π o request partitioned now
  | .closed nodeId client => s.closed nodeId client
  | .forget nodeId => s.forget nodeId
  | .sweep now => s.sweepClients o now
  | .close => { s with sweepTimer := false }

def run (es : List Event) : Pool := es.foldl (step π o) new

end Pool

/-! ### What is counted -/

/-- The operation holds the client; what has settled holds none. -/
def Request.holds (r : Request) (client : ℕ) : Bool :=
  decide (r.race ≠ .settled) && r.clientLeased && decide (r.client = some client)

/-- No client is delivered to a request that has settled. -/
def Careful (s : Pool) : Event → Prop
  | .lease request => ∀ r, s.requests[request]? = some r → ∀ client, r.work = .delivered client →
      r.race ≠ .settled
  | _ => True

structure Accounted (o : Options) (s : Pool) : Prop where
  users : ∀ client, s.clientUsers client = s.requests.countP fun r => r.holds client
  settled : (∀ r ∈ s.requests, r.race = .settled) → ∀ client, s.clientUsers client = 0
  swept : ∀ now, ∀ client ∈ (s.sweepClients o now).disconnected, client ∉ s.disconnected →
    ∀ r ∈ s.requests, r.holds client = false

/-- What the code has marked as leased, settled or not. -/
def Request.leases (r : Request) (client : ℕ) : Bool :=
  r.clientLeased && decide (r.client = some client)

/-- What a request says of its own lease. -/
structure Request.Sound (r : Request) : Prop where
  leased : r.clientLeased = true → r.client.isSome = true ∧ (r.work = .requesting ∨ r.work = .over)
  queued : r.race = .queued → r.work = .idle
  settled : r.race = .settled → r.clientLeased = false

structure Inv (s : Pool) : Prop where
  counted : Leases.Counted Request.leases s.requests s.clientUsers
  sound : ∀ r ∈ s.requests, r.Sound

variable {π : Platform} {o : Options} {s t : Pool} {r r' : Request} {request client : ℕ}
  {nodeId : JsString} {now : ℤ}

theorem Request.leases_of_free (h : r.clientLeased = false) (c : ℕ) : r.leases c = false := by
  rw [Request.leases, h, Bool.false_and]

theorem Request.Sound.of_free (hleased : r.clientLeased = false)
    (hqueued : r.race = .queued → r.work = .idle) : r.Sound :=
  ⟨fun h => by simp [hleased] at h, hqueued, fun _ => hleased⟩

theorem Request.Sound.holds_eq (h : r.Sound) (c : ℕ) : r.holds c = r.leases c := by
  rw [Request.holds, Request.leases]
  by_cases hrace : r.race = .settled
  · simp [h.settled hrace]
  · simp [hrace]

/-! ### What nobody leases by -/

/-- The requests and the counts are as they were. -/
structure Quiet (s t : Pool) : Prop where
  requests : t.requests = s.requests
  clientUsers : t.clientUsers = s.clientUsers

theorem Quiet.refl (s : Pool) : Quiet s s := ⟨rfl, rfl⟩

theorem Quiet.trans {u : Pool} (h : Quiet s t) (h' : Quiet t u) : Quiet s u :=
  ⟨h'.requests.trans h.requests, h'.clientUsers.trans h.clientUsers⟩

theorem Inv.quiet (h : Inv s) (hq : Quiet s t) : Inv t :=
  ⟨by rw [hq.requests, hq.clientUsers]; exact h.counted, by rw [hq.requests]; exact h.sound⟩

namespace Pool

theorem quiet_disconnect : Quiet s (s.disconnect client) := by
  rw [disconnect]
  split
  · exact .refl s
  · exact ⟨rfl, rfl⟩

theorem quiet_then_disconnect (h : Quiet s t) : Quiet s (t.disconnect client) :=
  h.trans quiet_disconnect

theorem quiet_touchClient : Quiet s (s.touchClient nodeId client now) := by
  rw [touchClient]
  split
  · split
    · exact ⟨rfl, rfl⟩
    · exact .refl s
  · exact .refl s

theorem quiet_retireClient : Quiet s (s.retireClient nodeId client) := by
  simp only [retireClient]
  split
  · exact quiet_then_disconnect ⟨rfl, rfl⟩
  · exact ⟨rfl, rfl⟩

theorem quiet_sweepIdle (idle : List (JsString × Entry)) (overCap : ℕ) :
    Quiet s (sweepIdle o now idle overCap s) := by
  induction idle generalizing overCap s with
  | nil => exact .refl s
  | cons p idle ih =>
    obtain ⟨nodeId, entry⟩ := p
    simp only [sweepIdle]
    split
    · exact ih overCap
    · refine .trans ?_ (ih (overCap - 1))
      refine .trans ?_ quiet_retireClient
      split
      · exact ⟨rfl, rfl⟩
      · exact ⟨rfl, rfl⟩

theorem quiet_sweepClients : Quiet s (s.sweepClients o now) := by
  simp only [sweepClients]
  split
  · exact .trans (quiet_sweepIdle _ _) ⟨rfl, rfl⟩
  · exact quiet_sweepIdle _ _

variable {attempt : ℕ} {binding : JsString} {peer : PeerRecord}

theorem quiet_setPromise {promise : Promise} :
    Quiet s (s.setPromise attempt promise) := ⟨rfl, rfl⟩

theorem quiet_discardPending {unwanted : Attempt → Bool} :
    Quiet s (s.discardPending nodeId unwanted) := by
  rw [discardPending]
  split
  · split
    · exact ⟨rfl, rfl⟩
    · exact .refl s
  · exact .refl s

theorem quiet_dropClient {unwanted : Entry → Bool} : Quiet s (s.dropClient nodeId unwanted) := by
  rw [dropClient]
  split
  · split
    · exact quiet_then_disconnect ⟨rfl, rfl⟩
    · exact .refl s
  · exact .refl s

theorem quiet_forgetBinding : Quiet s (s.forgetBinding nodeId binding) :=
  quiet_discardPending.trans quiet_dropClient

theorem quiet_connect :
    Quiet s (s.connect peer binding).1 := by
  have h : Quiet s (s.discardPending peer.nodeId fun _ => true) := quiet_discardPending
  exact h.trans ⟨rfl, rfl⟩

theorem quiet_connectOrWait :
    Quiet s (s.connectOrWait peer binding).1 := by
  simp only [connectOrWait]
  split
  · split
    · exact .refl s
    · exact quiet_connect
  · exact quiet_connect

theorem quiet_client : Quiet s (s.client π peer now).1 := by
  simp only [Pool.client]
  split
  · exact .refl s
  · split
    · split
      · exact ⟨rfl, rfl⟩
      · exact quiet_forgetBinding.trans quiet_connectOrWait
    · exact quiet_connectOrWait

theorem quiet_connected {given : Option ℕ} :
    Quiet s (s.connected attempt given now) := by
  simp only [connected]
  split
  · split
    · exact quiet_setPromise
    · split
      · exact quiet_disconnect.trans quiet_setPromise
      · exact ⟨rfl, rfl⟩
  · exact .refl s

theorem quiet_replaced : Quiet s (s.replaced attempt) := by
  simp only [replaced]
  split
  · split
    · split
      · exact quiet_setPromise
      · exact quiet_setPromise
    · exact quiet_setPromise
  · exact .refl s

theorem quiet_follow : Quiet s (s.follow attempt) := by
  simp only [follow]
  split
  · split
    · exact quiet_setPromise
    · exact quiet_setPromise
    · exact .refl s
  · exact .refl s

theorem quiet_connectDone {own : Bool} :
    Quiet s (s.connectDone nodeId attempt own) := by
  rw [connectDone]
  split
  · exact ⟨rfl, rfl⟩
  · exact .refl s

theorem quiet_retireFailed {failure : Failure} : Quiet s (s.retireFailed r failure) := by
  rw [retireFailed]
  split
  · split
    · exact .refl s
    · exact quiet_retireClient
  · exact .refl s

theorem quiet_closed : Quiet s (s.closed nodeId client) := by
  simp only [closed]
  split
  · split
    · exact ⟨rfl, rfl⟩
    · exact .refl s
  · exact .refl s

theorem quiet_forget : Quiet s (s.forget nodeId) := quiet_discardPending.trans quiet_dropClient

/-! ### Whom a sweep disconnects -/

theorem disconnected_disconnect {c : ℕ} (h : c ∈ (s.disconnect client).disconnected) :
    c ∈ s.disconnected ∨ c = client := by
  rw [disconnect] at h
  split at h
  · exact .inl h
  · rwa [List.mem_append, List.mem_singleton] at h

theorem disconnected_retireClient {c : ℕ} (h : c ∈ (s.retireClient nodeId client).disconnected) :
    c ∈ s.disconnected ∨ s.clientUsers c = 0 := by
  by_cases hfree : s.clientUsers client = 0
  · simp only [retireClient, if_pos hfree] at h
    rcases disconnected_disconnect h with h | rfl
    · exact .inl h
    · exact .inr hfree
  · simp only [retireClient, if_neg hfree] at h
    exact .inl h

theorem disconnected_sweepIdle {idle : List (JsString × Entry)} {overCap : ℕ}
    (h : client ∈ (sweepIdle o now idle overCap s).disconnected) :
    client ∈ s.disconnected ∨ s.clientUsers client = 0 := by
  induction idle generalizing overCap s with
  | nil => exact .inl h
  | cons p idle ih =>
    obtain ⟨nodeId, entry⟩ := p
    simp only [sweepIdle] at h
    split at h
    · exact ih h
    · rcases ih h with h | h
      · have hretired := disconnected_retireClient h
        split at hretired
        · exact hretired
        · exact hretired
      · rw [quiet_retireClient.clientUsers] at h
        split at h
        · exact .inr h
        · exact .inr h

theorem disconnected_sweepClients (h : client ∈ (s.sweepClients o now).disconnected) :
    client ∈ s.disconnected ∨ s.clientUsers client = 0 := by
  simp only [sweepClients] at h
  split at h
  · exact disconnected_sweepIdle h
  · exact disconnected_sweepIdle h

end Pool

/-! ### One request -/

/-- A request was written, and nobody leased or gave back. -/
structure Wrote (s : Pool) (request : ℕ) (r : Request) (t : Pool) : Prop where
  requests : t.requests = s.requests.set request r
  clientUsers : t.clientUsers = s.clientUsers

theorem Quiet.put (h : Quiet s t) : Wrote s request r (t.put request r) :=
  ⟨by rw [Pool.put, h.requests], h.clientUsers⟩

/-- A round begins: the request has no lease. -/
theorem Pool.attempt_wrote (π : Platform) (s : Pool) (request : ℕ) (r : Request)
    (partitioned : Bool) (now : ℤ) :
    ∃ r', Wrote s request r' (s.attempt π request r partitioned now) ∧ r'.clientLeased = false ∧
      r'.race ≠ .queued := by
  simp only [attempt]
  split
  · exact ⟨_, (Quiet.refl s).put, rfl, Race.noConfusion⟩
  · split
    · exact ⟨_, (Quiet.refl s).put, rfl, Race.noConfusion⟩
    · split
      · exact ⟨_, quiet_client.put, rfl, Race.noConfusion⟩
      · exact ⟨_, quiet_client.put, rfl, Race.noConfusion⟩

/-- A request that leases nothing is written over one that leases nothing. -/
theorem Inv.free (h : Inv s) (hr : s.requests[request]? = some r) (hw : Wrote s request r' t)
    (hfree : r.clientLeased = false) (hfree' : r'.clientLeased = false)
    (hqueued : r'.race = .queued → r'.work = .idle) : Inv t := by
  refine ⟨?_, fun q hq => ?_⟩
  · rw [hw.requests, hw.clientUsers]
    refine h.counted.set hr fun c => ?_
    rw [Request.leases_of_free hfree, Request.leases_of_free hfree']
  · rw [hw.requests] at hq
    rcases Tables.mem_write hq with rfl | hq
    · exact .of_free hfree' hqueued
    · exact h.sound q hq

/-- The lease stays as it is. -/
theorem Inv.hold (h : Inv s) (hr : s.requests[request]? = some r) (hw : Wrote s request r' t)
    (hclient : r'.client = r.client) (hleased : r'.clientLeased = r.clientLeased)
    (hsound : r'.Sound) : Inv t := by
  refine ⟨?_, fun q hq => ?_⟩
  · rw [hw.requests, hw.clientUsers]
    refine h.counted.set hr fun c => ?_
    simp only [Request.leases, hclient, hleased]
  · rw [hw.requests] at hq
    rcases Tables.mem_write hq with rfl | hq
    · exact hsound
    · exact h.sound q hq

theorem Pool.quiet_disconnect_if {p : Prop} [Decidable p] :
    Quiet s (if p then s.disconnect client else s) := by
  split
  · exact quiet_disconnect
  · exact .refl s

/-- A client that somebody uses has one user less. -/
theorem Pool.releaseClient_moves (nodeId : JsString) (now : ℤ) (hused : 0 < s.clientUsers client) :
    (s.releaseClient nodeId client now).requests = s.requests ∧
      (s.releaseClient nodeId client now).clientUsers =
        Function.update s.clientUsers client (s.clientUsers client - 1) := by
  have htouch : Quiet s (s.touchClient nodeId client now) := quiet_touchClient
  simp only [releaseClient, htouch.clientUsers, if_neg hused.ne']
  exact ⟨quiet_disconnect_if.requests.trans htouch.requests, quiet_disconnect_if.clientUsers⟩

theorem Pool.giveBack_leased (hclient : r.client = some client) (hleased : r.clientLeased = true) :
    s.giveBack request r now =
      (s.put request { r with clientLeased := false }).releaseClient r.peer.nodeId client now := by
  unfold Pool.giveBack
  split
  · rename_i c hc
    cases hclient.symm.trans hc
    rw [if_pos hleased]
  · rename_i hnone
    rw [hclient] at hnone
    cases hnone

theorem Pool.giveBack_free (hfree : r.clientLeased = false) :
    s.giveBack request r now = s.put request r := by
  unfold Pool.giveBack
  split
  · rw [if_neg (by simp [hfree])]
  · rfl

/-- Whoever ends the race gives back what the request has leased. -/
theorem Inv.giveBack (h : Inv s) (hr : s.requests[request]? = some r) (r' : Request) (now : ℤ)
    (hclient : r'.client = r.client) (hleased : r'.clientLeased = r.clientLeased)
    (hrace : r'.race = .queued → r'.work = .idle) :
    (s.giveBack request r' now).requests[request]? = some { r' with clientLeased := false } ∧
      Inv (s.giveBack request r' now) := by
  have hsound := h.sound r (List.mem_of_getElem? hr)
  cases hlease : r.clientLeased with
  | true =>
    obtain ⟨c, hc⟩ := Option.isSome_iff_exists.mp (hsound.leased hlease).1
    have hholds : r.leases c = true := by simp [Request.leases, hlease, hc]
    have hused : 0 < s.clientUsers c :=
      h.counted.pos (List.mem_of_getElem? hr) hholds
    obtain ⟨hrequests, husers⟩ := Pool.releaseClient_moves
      (s := s.put request { r' with clientLeased := false }) r'.peer.nodeId now hused
    rw [Pool.giveBack_leased (hclient.trans hc) (hleased.trans hlease)]
    refine ⟨?_, ?_, fun q hq => ?_⟩
    · rw [hrequests]
      exact Tables.get_write_self hr
    · rw [hrequests, husers]
      refine h.counted.set hr fun k => ?_
      rw [Request.leases_of_free (r := { r' with clientLeased := false }) rfl]
      by_cases hk : c = k
      · subst hk
        rw [Function.update_self, hholds]
        change s.clientUsers c - 1 + 1 = s.clientUsers c
        omega
      · rw [Function.update_of_ne (Ne.symm hk), Request.leases, hc]
        simp [hk, Pool.put]
    · rw [hrequests] at hq
      rcases Tables.mem_write hq with rfl | hq
      · exact .of_free rfl hrace
      · exact h.sound q hq
  | false =>
    have hsame : ({ r' with clientLeased := false } : Request) = r' := by
      rw [← hlease, ← hleased]
    rw [Pool.giveBack_free (hleased.trans hlease), hsame]
    exact ⟨Tables.get_write_self hr, h.free hr (Quiet.refl s).put hlease (hleased.trans hlease) hrace⟩

/-! ### Steps -/

theorem Inv.arrive {peer : PeerRecord} {timeoutMs : ℤ} (h : Inv s) :
    Inv (s.bounded peer timeoutMs now) := by
  refine ⟨h.counted.concat fun c => Request.leases_of_free rfl c, fun q hq => ?_⟩
  rcases List.mem_append.mp hq with hq | hq
  · exact h.sound q hq
  · rw [List.mem_singleton.mp hq]
    exact .of_free rfl fun _ => rfl

/-- What has not sent its request has leased nothing. -/
theorem Request.Sound.free (h : r.Sound) (hrequesting : r.work ≠ .requesting)
    (hover : r.work ≠ .over) : r.clientLeased = false := by
  cases hleased : r.clientLeased with
  | false => rfl
  | true => exact absurd (h.leased hleased).2 (not_or.mpr ⟨hrequesting, hover⟩)

/-- What works has left the queue. -/
theorem Request.Sound.begun (h : r.Sound) (hwork : r.work ≠ .idle) : r.race ≠ .queued :=
  fun hrace => hwork (h.queued hrace)

theorem Inv.slot {granted partitioned : Bool} (h : Inv s) :
    Inv (s.slot π request granted partitioned now) := by
  unfold Pool.slot
  split
  · exact h
  · rename_i r hr
    have hsound := h.sound r (List.mem_of_getElem? hr)
    split
    · rename_i hrace
      have hfree := hsound.free (by simp [hsound.queued hrace]) (by simp [hsound.queued hrace])
      split
      · obtain ⟨r', hw, hfree', hrace'⟩ := Pool.attempt_wrote π s request r partitioned now
        exact h.free hr hw hfree hfree' fun hqueued => absurd hqueued hrace'
      · exact h.free hr (Quiet.refl s).put hfree hfree fun hqueued => by cases hqueued
    · exact h

variable {failure : Failure}

theorem Request.reject_race (h : (r.reject failure).race = .queued) :
    r.race = .queued := by
  simp only [Request.reject] at h
  split at h
  · cases h
  · exact h

theorem Request.reject_settled (h : (r.reject failure).race = .settled) :
    r.race = .settled := by
  simp only [Request.reject] at h
  split at h
  · cases h
  · exact h

/-- The operation is over, and the lease stays until the race is left. -/
theorem Request.Sound.reject (h : r.Sound) (hrace : r.race ≠ .queued) :
    (r.reject failure).Sound :=
  ⟨fun hleased => ⟨(h.leased hleased).1, .inr rfl⟩,
    fun hqueued => absurd (Request.reject_race hqueued) hrace,
    fun hsettled => h.settled (Request.reject_settled hsettled)⟩

theorem Inv.resume (h : Inv s) : Inv (s.resume request) := by
  unfold Pool.resume
  split
  · exact h
  · rename_i r hr
    have hsound := h.sound r (List.mem_of_getElem? hr)
    split
    · rename_i i own hwork
      have hqueued := hsound.begun (by simp [hwork])
      have hfree := hsound.free (by simp [hwork]) (by simp [hwork])
      split
      · exact h.free hr Pool.quiet_connectDone.put hfree hfree fun hrace => absurd hrace hqueued
      · refine h.free hr Pool.quiet_connectDone.put hfree hfree fun hrace => ?_
        exact absurd (Request.reject_race hrace) hqueued
      · exact h
    · exact h

/-- The one step that takes a lease: nobody else counts it, so it must find the race open. -/
theorem Inv.lease (h : Inv s) (hcareful : Careful s (.lease request)) : Inv (s.lease request) := by
  unfold Pool.lease
  split
  · exact h
  · rename_i r hr
    have hsound := h.sound r (List.mem_of_getElem? hr)
    split
    · rename_i c hwork
      have hsettled : r.race ≠ .settled := hcareful r hr c hwork
      have hqueued := hsound.begun (by simp [hwork])
      have hfree := hsound.free (by simp [hwork]) (by simp [hwork])
      have hwrote {r' : Request} (hclient : r'.client = some c) (hleased : r'.clientLeased = true)
          (hwork' : r'.work = .requesting ∨ r'.work = .over) (hqueued' : r'.race ≠ .queued)
          (hsettled' : r'.race ≠ .settled) : Inv ((s.acquireClient c).put request r') := by
        refine ⟨h.counted.set hr fun k => ?_, fun q hq => ?_⟩
        · rw [Request.leases_of_free hfree, Request.leases, hclient, hleased]
          by_cases hk : c = k
          · subst hk
            simp [Pool.put, Pool.acquireClient]
          · simp [Pool.put, Pool.acquireClient, hk, Function.update_of_ne (Ne.symm hk)]
        · rcases Tables.mem_write hq with rfl | hq
          · exact ⟨fun _ => ⟨by simp [hclient], hwork'⟩, fun hrace => absurd hrace hqueued',
              fun hrace => absurd hrace hsettled'⟩
          · exact h.sound q hq
      simp only
      split
      · refine hwrote rfl rfl (.inr rfl) (fun hrace => ?_) fun hrace => ?_
        · exact hqueued (Request.reject_race hrace)
        · exact hsettled (Request.reject_settled hrace)
      · exact hwrote rfl rfl (.inl rfl) hqueued hsettled
    · exact h

theorem Inv.reply {failure : Option Failure} (h : Inv s) : Inv (s.reply request failure) := by
  unfold Pool.reply
  split
  · exact h
  · rename_i r hr
    have hsound := h.sound r (List.mem_of_getElem? hr)
    split
    · rename_i hwork
      have hqueued := hsound.begun (by simp [hwork])
      split
      · exact h.hold hr (Quiet.refl s).put rfl rfl (hsound.reject hqueued)
      · refine h.hold hr (Quiet.refl s).put rfl rfl ⟨fun hleased => ?_, fun hrace => ?_, fun hrace => ?_⟩
        · exact ⟨(hsound.leased hleased).1, .inr rfl⟩
        · simp only at hrace
          split at hrace
          · cases hrace
          · exact absurd hrace hqueued
        · simp only at hrace
          split at hrace
          · cases hrace
          · exact hsound.settled hrace
    · exact h

theorem Inv.timer (h : Inv s) : Inv (s.timer request) := by
  unfold Pool.timer
  split
  · exact h
  · rename_i r hr
    have hsound := h.sound r (List.mem_of_getElem? hr)
    split
    · refine h.hold hr (Quiet.refl s).put rfl rfl ⟨hsound.leased, fun hrace => ?_, fun hrace => ?_⟩
      · cases hrace
      · cases hrace
    · exact h

theorem Inv.settle {partitioned : Bool} (h : Inv s) :
    Inv (s.settle π o request partitioned now) := by
  unfold Pool.settle
  split
  · exact h
  · rename_i r hr
    split
    · rename_i failure hrace
      have hretired : Inv (s.retireFailed r failure) := h.quiet Pool.quiet_retireFailed
      have hr' : (s.retireFailed r failure).requests[request]? = some r := by
        rw [Pool.quiet_retireFailed.requests, hr]
      simp only
      split
      · obtain ⟨hgiven, hinv⟩ := hretired.giveBack hr'
          { r with supersededAttempt := r.supersededAttempt + 1 } now rfl rfl
          fun hqueued => by simp [hrace] at hqueued
        obtain ⟨r', hw, hfree, hqueued⟩ := Pool.attempt_wrote π _ request
          { r with supersededAttempt := r.supersededAttempt + 1 } partitioned now
        exact hinv.free hgiven hw rfl hfree fun hrace' => absurd hrace' hqueued
      · exact (hretired.giveBack hr' { r with race := .settled } now rfl rfl Race.noConfusion).2
    · exact (h.giveBack hr { r with race := .settled } now rfl rfl Race.noConfusion).2
    · exact h

/-- What one event keeps, if it delivers no client to a request that has settled. -/
theorem Inv.step {e : Event} (h : Inv s) (hcareful : Careful s e) : Inv (s.step π o e) := by
  cases e with
  | request peer timeoutMs now => exact h.arrive
  | slot request granted partitioned now => exact h.slot
  | connected attempt client now => exact h.quiet Pool.quiet_connected
  | disconnected attempt => exact h.quiet Pool.quiet_replaced
  | follow attempt => exact h.quiet Pool.quiet_follow
  | resume request => exact h.resume
  | lease request => exact h.lease hcareful
  | reply request failure => exact h.reply
  | timer request => exact h.timer
  | settle request partitioned now => exact h.settle
  | closed nodeId client => exact h.quiet Pool.quiet_closed
  | forget nodeId => exact h.quiet Pool.quiet_forget
  | sweep now => exact h.quiet Pool.quiet_sweepClients
  | close => exact h.quiet ⟨rfl, rfl⟩

theorem inv_new : Inv .new := ⟨.nil, fun _ hr => by cases hr⟩

theorem Inv.accounted (h : Inv s) : Accounted o s where
  users c := by
    rw [h.counted c]
    exact List.countP_congr fun r hr => by rw [(h.sound r hr).holds_eq]
  settled hall c := by
    rw [h.counted c, List.countP_eq_zero]
    intro r hr
    simp [Request.leases_of_free ((h.sound r hr).settled (hall r hr))]
  swept now c hc hnew r hr := by
    rw [(h.sound r hr).holds_eq]
    refine h.counted.free ?_ r hr
    exact (Pool.disconnected_sweepClients hc).resolve_left hnew

/-- In a run that delivers no client to a request that has settled, the count of a client is the
    number of the operations that hold it, and a sweep disconnects no client that is held. -/
theorem leases_accounted (π : Platform) (o : Options) (es : List Event)
    (h : Runs.Along (Pool.step π o) Careful .new es) : Accounted o (Pool.run π o es) :=
  (h.keeps inv_new fun _ _ hinv hcareful => hinv.step hcareful).accounted

def localPeer : PeerRecord := ⟨js "a", js "i", some 1, [js "quic://h:1"]⟩

def localPlatform : Platform := ⟨fun _ => some ⟨js "h", 1⟩, fun _ => true⟩

def defaults : Options := ⟨2, 64, 20000⟩

/-- The connect comes before the timer. -/
def intime : List Event :=
  [.request localPeer 100 0, .slot 0 true false 0, .connected 0 (some 7) 10, .resume 0, .lease 0,
    .timer 0, .settle 0 false 100]

/-- The connect comes after the timer. -/
def late : List Event :=
  [.request localPeer 100 0, .slot 0 true false 0, .timer 0, .settle 0 false 100,
    .connected 0 (some 7) 110, .resume 0, .lease 0]

theorem leases_accounted_intime :
    Runs.Along (Pool.step localPlatform defaults) Careful .new intime ∧
      Accounted defaults (Pool.run localPlatform defaults intime) := by
  have h : Runs.Along (Pool.step localPlatform defaults) Careful .new intime := by
    refine ⟨trivial, trivial, trivial, trivial, ?_, trivial, trivial, trivial⟩
    intro r hr client _ hrace
    cases hr
    cases hrace
  exact ⟨h, leases_accounted localPlatform defaults intime h⟩

/-- The request has settled when the client comes: its lease is never given back. -/
theorem lease_never_returned :
    (∀ r ∈ (Pool.run localPlatform defaults late).requests, r.race = .settled) ∧
      (Pool.run localPlatform defaults late).clientUsers 7 = 1 ∧
        ¬ Accounted defaults (Pool.run localPlatform defaults late) := by
  have hall : ∀ r ∈ (Pool.run localPlatform defaults late).requests, r.race = .settled := by
    decide
  have husers : (Pool.run localPlatform defaults late).clientUsers 7 = 1 := by rfl
  refine ⟨hall, husers, fun h => ?_⟩
  have hzero := h.settled hall 7
  omega

end Truyn.Rpc.Clients
