import Truyn.Transport.Pool

/-! transport:direct-first | `DirectFirstP2P.send`, one segment after the other

    A call of `send` runs from one `await` to the next, and any other call may run between. It is
    resumed with what it awaited. Discovery, the transports, the faults that are injected and the
    clock may answer anything. Where the source goes on without an `await` and a segment ends here
    all the same, the runs of the source are among the runs of the model. -/

namespace Truyn.Transport

/-- The options the constructor accepts. -/
structure Config where
  routeAttemptTimeoutMs : ℕ
  directConnectTimeoutMs : ℕ
  directConnectAttempts : ℕ
  directConnectionReuseIdleMs : ℕ
  supersededRetries : ℕ
  /-- `relayFallback` is a function. -/
  relayFallback : Bool
  attempts_pos : 1 ≤ directConnectAttempts
  attempts_le : directConnectAttempts ≤ 4
  retries_le : supersededRetries ≤ 4

/-- How a call ends. -/
inductive Outcome
  | direct
  | relayed (directFailure : JsString)
  | failed (e : Failure) (directFailure : Option JsString)

/-- Where a call goes on, and what it has at hand there. -/
inductive Place
  /-- in the admission queue -/
  | waiting
  /-- after `#discover` -/
  | discovering
  /-- at the head of the loop -/
  | trying (r : PeerRecord)
  /-- after the pooled connection was discarded -/
  | cleared (r : PeerRecord)
  /-- at the head of the retry loop -/
  | attempting (r : PeerRecord) (st n : ℕ)
  /-- after `quic.connect` -/
  | connecting (r : PeerRecord) (st n : ℕ)
  /-- after a client nobody waits for was disconnected -/
  | dropping (r : PeerRecord) (st : ℕ)
  /-- after the connect that replaced the own one -/
  | replaced (r : PeerRecord) (st other : ℕ)
  /-- after the connect of another call -/
  | joining (r : PeerRecord) (st : ℕ)
  /-- after the own connect -/
  | settled (r : PeerRecord) (st : ℕ)
  /-- with a client -/
  | resolved (r : PeerRecord) (c : ℕ)
  /-- after `sendEnvelope` -/
  | sending (r : PeerRecord) (c : ℕ)
  /-- at the head of the `catch` block -/
  | failing (r : PeerRecord) (e : Failure)
  /-- after the binding was discarded -/
  | caught (r : PeerRecord) (e : Failure)
  /-- after the forced walk -/
  | rediscovering (r : PeerRecord)
  /-- without a newer record -/
  | unchanged (r : PeerRecord)
  /-- after `beforeRelay` -/
  | falling
  /-- after `relayFallback` -/
  | relaying
  | done (o : Outcome)

/-- To whom an envelope was handed. -/
inductive Handover
  | sendEnvelope (c : ℕ)
  | relayFallback

/-- One call of `send`, with the connection attempts it has made and the transports it has handed
    the envelope to. -/
structure Call where
  peerNodeId : JsString
  allowRelayFallback : Bool
  deadlineAt : Option ℕ
  routeDeadlineAt : ℕ
  applicationDispatched : Bool
  directError : Option Failure
  supersededAttempt : ℕ
  connectTimeoutRecoveryAttempt : ℕ
  connects : List Endpoint
  handed : List Handover
  place : Place

/-- What a call is resumed with: the clock, what discovery has, and whether the awaited call has
    failed. -/
structure Answer where
  now : ℕ
  record : Option PeerRecord
  failure : Option Failure

namespace Call

variable (π : Platform) (cfg : Config)

def start (peer : JsString) (allowRelay : Bool) (deadlineAt : Option ℕ) : Call :=
  ⟨peer, allowRelay, deadlineAt, 0, false, none, 0, 0, [], [], .waiting⟩

def remainingMs (op : Call) (now : ℕ) : ℕ := op.routeDeadlineAt - now

def go (op : Call) (place : Place) : Call := { op with place := place }

/-- The `binding` of an attempt to reach the peer under a record. -/
def bindingOf (r : PeerRecord) : Option JsString :=
  (selectedQuicEndpoint π r).map fun s => peerRecordBinding r s.1

def admitted (op : Call) (a : Answer) : Call :=
  match a.failure with
  | some e => op.go (.done (.failed e none))
  | none =>
    let own := a.now + cfg.routeAttemptTimeoutMs
    { op with
      routeDeadlineAt := (op.deadlineAt.map fun d => min d own).getD own
      place := .discovering }

/-- After the loop. -/
def leave (op : Call) : Call :=
  let e := op.directError.getD (failure [] (js "peer_not_discovered"))
  if op.applicationDispatched || !op.allowRelayFallback || !cfg.relayFallback then
    op.go (.done (.failed e none))
  else { op with directError := some e, place := .falling }

def discovered (op : Call) (a : Answer) : Call :=
  match a.failure, a.record with
  | some e, _ => op.go (.done (.failed e none))
  | none, some r => op.go (.trying r)
  | none, none => op.leave cfg

/-! ### `#directClient` and `#connectWithRetry` -/

/-- The part of `#directClient` after the pool was looked up. -/
def connect (op : Call) (r : PeerRecord) (p : Pool) : Call × Pool :=
  match selectedQuicEndpoint π r with
  | none => (op.go (.failing r (failure [] (js "peer_has_no_quic_endpoint"))), p)
  | some (value, _) =>
    let binding := peerRecordBinding r value
    match p.pending r.nodeId with
    | some (st, s) =>
      if s.binding = binding ∧ s.discarded = false then (op.go (.joining r st), p)
      else
        let q := p.discardPending r.nodeId
        (op.go (.attempting r q.attempts.length 0), q.beginAttempt r.nodeId binding)
    | none => (op.go (.attempting r p.attempts.length 0), p.beginAttempt r.nodeId binding)

def directClient (op : Call) (r : PeerRecord) (a : Answer) (p : Pool) : Call × Pool :=
  match selectedQuicEndpoint π r with
  | none => (op.go (.failing r (failure [] (js "peer_has_no_quic_endpoint"))), p)
  | some (value, _) =>
    match Maps.get p.connections r.nodeId with
    | some existing =>
      if existing.binding = peerRecordBinding r value then
        if a.now - existing.lastUsedAt < cfg.directConnectionReuseIdleMs then
          (op.go (.resolved r existing.client), p.touch r.nodeId a.now)
        else (op.go (.cleared r), p.discardBinding r.nodeId (some (peerRecordBinding r value)))
      else (op.go (.cleared r), p.discardConnection false r.nodeId)
    | none => op.connect π r p

/-- The head of the loop: `assertPeer`, then `#directClient`. -/
def tryDirect (op : Call) (r : PeerRecord) (a : Answer) (p : Pool) : Call × Pool :=
  match a.failure with
  | some e => (op.go (.failing r e), p)
  | none => op.directClient π cfg r a p

/-- The own connect is over. -/
def settleOwn (op : Call) (r : PeerRecord) (st : ℕ) (o : Except Failure ℕ) (p : Pool) :
    Call × Pool :=
  (op.go (.settled r st), p.settle st o)

/-- The head of the retry loop: one more `quic.connect`, if there is time. -/
def attempt (op : Call) (r : PeerRecord) (st n : ℕ) (a : Answer) (p : Pool) : Call × Pool :=
  match selectedQuicEndpoint π r with
  | none => op.settleOwn r st (.error (failure [] (js "peer_connection_failed"))) p
  | some (_, endpoint) =>
    if op.remainingMs a.now = 0 then
      op.settleOwn r st (.error (routeDeadlineError r.nodeId (js "direct-connect"))) p
    else ({ op with connects := op.connects ++ [endpoint], place := .connecting r st n }, p)

/-- After `quic.connect`: it fails (with `timeoutCode` when its timer was first), or has made a
    client. -/
def connected (op : Call) (r : PeerRecord) (st n : ℕ) (a : Answer) (p : Pool) : Call × Pool :=
  match a.failure with
  | some e =>
    if e.code = timeoutCode ∨ retryableConnectError e = false ∨ cfg.directConnectAttempts ≤ n + 1
    then op.settleOwn r st (.error e) p
    else (op.go (.attempting r st (n + 1)), p)
  | none =>
    if (p.attempt st).any (·.discarded) ∨ Maps.get p.connectingByNodeId r.nodeId ≠ some st then
      (op.go (.dropping r st), p.dropNew)
    else
      let binding := (bindingOf π r).getD []
      op.settleOwn r st (.ok p.clients) (p.poolNew r.nodeId binding a.now)

/-- What a call whose own client was dropped continues with. -/
def superseded (op : Call) (r : PeerRecord) (st : ℕ) (p : Pool) : Call × Pool :=
  match p.pending r.nodeId with
  | some (other, s) =>
    if s.discarded = false then (op.go (.replaced r st other), p)
    else op.settleOwn r st (.error (supersededConnectionError r.nodeId)) p
  | none =>
    match p.clientOf r.nodeId with
    | some c => op.settleOwn r st (.ok c) p
    | none => op.settleOwn r st (.error (supersededConnectionError r.nodeId)) p

/-- What another call's connect came to, or that there was no time to wait for it. -/
def awaited (a : Answer) (other : ℕ) (p : Pool) : Option (Except Failure ℕ) :=
  match a.failure with
  | some e => some (.error e)
  | none => (p.attempt other).bind Attempt.outcome

def replacedBy (op : Call) (r : PeerRecord) (st other : ℕ) (a : Answer) (p : Pool) : Call × Pool :=
  match awaited a other p with
  | some o => op.settleOwn r st o p
  | none => (op, p)

/-- `#directClient` has returned or thrown. -/
def took (op : Call) (r : PeerRecord) : Except Failure ℕ → Call
  | .ok c => op.go (.resolved r c)
  | .error e => op.go (.failing r e)

def joined (op : Call) (r : PeerRecord) (st : ℕ) (a : Answer) (p : Pool) : Call :=
  match awaited a st p with
  | some o => op.took r o
  | none => op

/-- The `finally` of `#directClient`. -/
def ownSettled (op : Call) (r : PeerRecord) (st : ℕ) (p : Pool) : Call × Pool :=
  match (p.attempt st).bind Attempt.outcome with
  | some o => (op.took r o, p.forgetAttempt r.nodeId st)
  | none => (op, p)

/-! ### The rest of `send` -/

/-- The client is pooled still: lease it, and hand the envelope over if there is time. -/
def dispatch (op : Call) (r : PeerRecord) (c : ℕ) (a : Answer) (p : Pool) : Call × Pool :=
  if p.clientOf op.peerNodeId ≠ some c then
    (op.go (.failing r (supersededConnectionError op.peerNodeId)), p)
  else
    let leased := { op with applicationDispatched := true, place := .sending r c }
    (if op.remainingMs a.now = 0 then leased
      else { leased with handed := op.handed ++ [.sendEnvelope c] }, p.leaseClient c)

def sent (op : Call) (r : PeerRecord) (c : ℕ) (a : Answer) (p : Pool) : Call × Pool :=
  match a.failure with
  | some e => (op.go (.failing r e), p.releaseClient c)
  | none => (op.go (.done .direct), p.releaseClient c)

def catching (op : Call) (r : PeerRecord) (e : Failure) (p : Pool) : Call × Pool :=
  let phase := if op.applicationDispatched then js "direct-envelope" else js "direct-connect"
  ({ op with directError := some (classifiedDirectError e phase), place := .caught r e },
    p.discardBinding op.peerNodeId (bindingOf π r))

/-- The branches of the `catch` block. -/
def retry (op : Call) (r : PeerRecord) (e : Failure) (a : Answer) : Call :=
  if op.applicationDispatched = false ∧ e.code = supersededCode ∧
      op.supersededAttempt < cfg.supersededRetries ∧ 0 < op.remainingMs a.now then
    { op with supersededAttempt := op.supersededAttempt + 1, place := .discovering }
  else if op.applicationDispatched = false ∧ e.code = timeoutCode ∧
      op.connectTimeoutRecoveryAttempt < 1 ∧
      cfg.directConnectTimeoutMs < op.remainingMs a.now then
    { op with
      connectTimeoutRecoveryAttempt := op.connectTimeoutRecoveryAttempt + 1
      place := if 2000 < op.remainingMs a.now then .rediscovering r else .unchanged r }
  else op.leave cfg

/-- `#forceRediscoverAfterConnectTimeout`: nothing if the walk has failed or found nothing newer. -/
def rediscovered (op : Call) (r : PeerRecord) (a : Answer) : Call :=
  match a.failure, a.record with
  | none, some refreshed =>
    if newerPeerBinding π refreshed r then op.go (.trying refreshed) else op.go (.unchanged r)
  | _, _ => op.go (.unchanged r)

/-- Discovery still has the record that was tried: it is tried once more. -/
def sameBinding (op : Call) (r current : PeerRecord) : Bool :=
  current.nodeId = op.peerNodeId &&
    ((selectedQuicEndpoint π current).map Prod.fst) = ((selectedQuicEndpoint π r).map Prod.fst) &&
    ((selectedQuicEndpoint π r).map fun s => peerRecordBinding current s.1) = bindingOf π r

def compared (op : Call) (r : PeerRecord) (a : Answer) : Call :=
  match a.record with
  | some current =>
    if op.sameBinding π r current ∧ cfg.directConnectTimeoutMs < op.remainingMs a.now then
      op.go (.trying current)
    else op.leave cfg
  | none => op.leave cfg

def directFailure (op : Call) : JsString :=
  match op.directError with
  | some e => if e.message ≠ [] then e.message else js "unknown"
  | none => js "unknown"

def relay (op : Call) (a : Answer) : Call :=
  match a.failure with
  | some e => op.go (.done (.failed e (some op.directFailure)))
  | none =>
    let marked := { op with applicationDispatched := true, place := .relaying }
    if op.remainingMs a.now = 0 then marked
    else { marked with handed := op.handed ++ [.relayFallback] }

def relayed (op : Call) (a : Answer) : Call :=
  match a.failure with
  | some e => op.go (.done (.failed e none))
  | none => op.go (.done (.relayed op.directFailure))

/-- One segment. -/
def resume (op : Call) (a : Answer) (p : Pool) : Call × Pool :=
  match op.place with
  | .waiting => (op.admitted cfg a, p)
  | .discovering => (op.discovered cfg a, p)
  | .trying r => op.tryDirect π cfg r a p
  | .cleared r => op.connect π r p
  | .attempting r st n => op.attempt π r st n a p
  | .connecting r st n => op.connected π cfg r st n a p
  | .dropping r st => op.superseded r st p
  | .replaced r st other => op.replacedBy r st other a p
  | .joining r st => (op.joined r st a p, p)
  | .settled r st => op.ownSettled r st p
  | .resolved r c => op.dispatch r c a p
  | .sending r c => op.sent r c a p
  | .failing r e => op.catching π r e p
  | .caught r e => (op.retry cfg r e a, p)
  | .rediscovering r => (op.rediscovered π r a, p)
  | .unchanged r => (op.compared π cfg r a, p)
  | .falling => (op.relay a, p)
  | .relaying => (op.relayed a, p)
  | .done _ => (op, p)

/-- The call has leased a client and not released it. -/
def holds (op : Call) (c : ℕ) : Bool :=
  match op.place with
  | .sending _ c' => c' = c
  | _ => false

end Call

/-! ### Whole runs -/

/-- What may happen next. `late` is a client that is made after its connect has timed out. -/
inductive Event
  | send (peer : JsString) (allowRelay : Bool) (deadlineAt : Option ℕ)
  | resume (i : ℕ) (a : Answer)
  | sweepIdleConnections (now : ℕ)
  | closed (peer : JsString) (c : ℕ)
  | retire (peer : JsString)
  | forget (peer : JsString)
  | late

structure P2P where
  calls : List Call
  pool : Pool

namespace P2P

variable (π : Platform) (cfg : Config)

def empty : P2P := ⟨[], .empty⟩

def step (s : P2P) : Event → P2P
  | .send peer allowRelay deadlineAt =>
    { s with calls := s.calls ++ [Call.start peer allowRelay deadlineAt] }
  | .resume i a =>
    match s.calls[i]? with
    | some op =>
      let next := op.resume π cfg a s.pool
      ⟨s.calls.set i next.1, next.2⟩
    | none => s
  | .sweepIdleConnections now =>
    { s with pool := s.pool.sweepIdleConnections cfg.directConnectionReuseIdleMs now }
  | .closed peer c => { s with pool := s.pool.watchConnection peer c }
  | .retire peer => { s with pool := s.pool.discardConnection false peer }
  | .forget peer => { s with pool := s.pool.discardConnection true peer }
  | .late => { s with pool := s.pool.dropNew }

def run (es : List Event) : P2P := es.foldl (step π cfg) empty

/-- The clients that a step disconnects, and whether it is forced to. -/
def disconnected (s : P2P) (e : Event) : List (ℕ × Bool) :=
  (step π cfg s e).pool.closed.drop s.pool.closed.length

end P2P

end Truyn.Transport
