import Truyn.Js.Text
import Truyn.Schemes.Leases
import Truyn.Schemes.Maps

/-! transport:pool | pooled QUIC connections, the connects in progress, and the leases

    A peer record names its endpoints; the record and the endpoint are the binding of a connection.
    The pool keeps one connection for each peer. Taking one out of the pool retires it: it is closed
    at once if nobody has leased it, otherwise with the last lease, unless the close is forced. -/

namespace Truyn.Transport

/-! ### Records and failures -/

/-- What a URL parser tells of a URL; a URL without a port has port 0. -/
structure Url where
  hostname : JsString
  port : ℕ

structure Endpoint where
  host : JsString
  port : ℕ

structure PeerRecord where
  nodeId : JsString
  /-- Empty when the record has none. -/
  instanceId : JsString
  sequence : Option ℤ
  endpoints : List JsString

/-- What the code uses of its platform. -/
structure Platform where
  url : JsString → Option Url
  verifyPeerRecord : PeerRecord → Bool

/-- `replace(/^\[|\]$/g, '')` -/
def unbracketed (hostname : JsString) : JsString :=
  let opened := if hostname.head? = some 0x5B then hostname.tail else hostname
  if opened.getLast? = some 0x5D then opened.dropLast else opened

def parseQuicEndpoint (π : Platform) (value : JsString) : Option Endpoint :=
  if (js "quic://").isPrefixOf value then
    match π.url value with
    | some url =>
      if url.hostname = [] ∨ url.port < 1 ∨ 65535 < url.port then none
      else some ⟨unbracketed url.hostname, url.port⟩
    | none => none
  else none

def selectedQuicEndpoint (π : Platform) (r : PeerRecord) : Option (JsString × Endpoint) :=
  r.endpoints.findSome? fun value => (parseQuicEndpoint π value).map fun e => (value, e)

def peerRecordBinding (r : PeerRecord) (endpointValue : JsString) : JsString :=
  let epoch := if r.instanceId ≠ [] then r.instanceId else
    match r.sequence with
    | some n => decimal (some n)
    | none => js "na"
  epoch ++ js ":" ++ endpointValue

def newerPeerBinding (π : Platform) (candidate attempted : PeerRecord) : Bool :=
  if candidate.nodeId ≠ attempted.nodeId ∨ π.verifyPeerRecord candidate = false then false
  else if candidate.instanceId ≠ [] ∧ attempted.instanceId ≠ [] ∧
      candidate.instanceId ≠ attempted.instanceId then true
  else
    let endpointOf := fun r => (selectedQuicEndpoint π r).map Prod.fst
    let moved := match endpointOf candidate, endpointOf attempted with
      | some new, some old => decide (new ≠ old)
      | _, _ => false
    match candidate.sequence, attempted.sequence with
    | some new, some old => decide (old < new) || moved
    | _, _ => moved

/-- An error. `code` and `message` are empty where they are missing or no strings, and `kind` is the
    name of the class (or `null`, `undefined`, or the type of a primitive value). -/
structure Failure where
  kind : JsString
  code : JsString
  message : JsString
  transient : Bool
  phase : JsString
  causeClass : JsString

def failure (code message : JsString) : Failure := ⟨js "Error", code, message, false, [], []⟩

def routeDeadlineError (peer phase : JsString) : Failure :=
  { failure (js "TRUYN_ROUTE_DEADLINE_EXCEEDED")
      (js "route_deadline_exceeded:" ++ phase ++ js ":" ++ peer) with phase := phase }

def supersededCode : JsString := js "TRUYN_P2P_CONNECTION_SUPERSEDED"

def timeoutCode : JsString := js "TRUYN_P2P_CONNECT_TIMEOUT"

def supersededConnectionError (peer : JsString) : Failure :=
  failure supersededCode (js "p2p_connection_superseded:" ++ peer)

def retryableConnectError (e : Failure) : Bool :=
  e.code = timeoutCode || e.transient || e.code ∈ [js "ETIMEDOUT", js "ECONNRESET",
    js "ECONNREFUSED", js "EHOSTUNREACH", js "ENETUNREACH"]

def classifiedDirectError (e : Failure) (phase : JsString) : Failure :=
  if e.code ≠ [] then e
  else
    { kind := js "Error"
      code := if phase = js "direct-envelope" then js "TRUYN_P2P_DISPATCH_FAILED"
        else js "TRUYN_P2P_DIRECT_FAILED"
      message := js "p2p_" ++ phase ++ js "_failed:" ++ e.kind ++
        if e.message ≠ [] then js ":" ++ e.message.take 96 else []
      transient := false
      phase := phase
      causeClass := e.kind }

/-! ### The pool -/

structure Pooled where
  client : ℕ
  binding : JsString
  lastUsedAt : ℕ

/-- A connect in progress; its promise is settled once there is an outcome. -/
structure Attempt where
  binding : JsString
  discarded : Bool
  outcome : Option (Except Failure ℕ)

/-- `clients` counts the clients that connecting has made: each is a new one. `closed` logs the
    clients that were disconnected, and whether that was forced. -/
structure Pool where
  connections : List (JsString × Pooled)
  connectingByNodeId : List (JsString × ℕ)
  attempts : List Attempt
  clients : ℕ
  clientLeases : ℕ → ℕ
  retiredClients : ℕ → Bool
  closed : List (ℕ × Bool)

namespace Pool

variable {p q r : Pool} {force : Bool} {c : ℕ} {peer : JsString}

def empty : Pool := ⟨[], [], [], 0, fun _ => 0, fun _ => false, []⟩

/-- The client of the pooled connection to a peer. -/
def clientOf (p : Pool) (peer : JsString) : Option ℕ :=
  (Maps.get p.connections peer).map Pooled.client

def disconnectClient (force : Bool) (c : ℕ) (p : Pool) : Pool :=
  { p with closed := p.closed ++ [(c, force)] }

def leaseClient (c : ℕ) (p : Pool) : Pool :=
  { p with clientLeases := Function.update p.clientLeases c (p.clientLeases c + 1) }

/-- What `leaseClient` returns. -/
def releaseClient (c : ℕ) (p : Pool) : Pool :=
  let remaining := (if p.clientLeases c = 0 then 1 else p.clientLeases c) - 1
  let released := { p with clientLeases := Function.update p.clientLeases c remaining }
  if 0 < remaining then released
  else if p.retiredClients c then
    disconnectClient false c
      { released with retiredClients := Function.update p.retiredClients c false }
  else released

def retireClient (force : Bool) (c : ℕ) (p : Pool) : Pool :=
  if force = false ∧ 0 < p.clientLeases c then
    { p with retiredClients := Function.update p.retiredClients c true }
  else
    disconnectClient force c { p with retiredClients := Function.update p.retiredClients c false }

/-- Take the connection to a peer out of the pool, and retire its client. -/
def remove (force : Bool) (peer : JsString) (p : Pool) : Pool :=
  match p.clientOf peer with
  | some c => retireClient force c { p with connections := Maps.delete peer p.connections }
  | none => p

/-- Nobody waits for the connect in progress any more. -/
def discardPending (peer : JsString) (p : Pool) : Pool :=
  match Maps.get p.connectingByNodeId peer with
  | some st =>
    { p with
      attempts := p.attempts.modify st fun a => { a with discarded := true }
      connectingByNodeId := Maps.delete peer p.connectingByNodeId }
  | none => p

def discardConnection (force : Bool) (peer : JsString) (p : Pool) : Pool :=
  remove force peer (discardPending peer p)

def attempt (p : Pool) (st : ℕ) : Option Attempt := p.attempts[st]?

/-- The connect in progress for a peer. -/
def pending (p : Pool) (peer : JsString) : Option (ℕ × Attempt) := do
  let st ← Maps.get p.connectingByNodeId peer
  let a ← p.attempt st
  some (st, a)

def discardBinding (peer : JsString) (binding : Option JsString) (p : Pool) : Pool :=
  match binding with
  | none => p
  | some b =>
    let q := if (p.pending peer).any fun s => s.2.binding = b then discardPending peer p else p
    if (Maps.get q.connections peer).any fun e => e.binding = b then remove false peer q else q

def sweepIdleConnections (reuseIdleMs now : ℕ) (p : Pool) : Pool :=
  p.connections.foldl (fun q e =>
    if now - e.2.lastUsedAt < reuseIdleMs then q else remove false e.1 q) p

/-- A connection that closes by itself is no longer pooled. -/
def watchConnection (peer : JsString) (c : ℕ) (p : Pool) : Pool :=
  if p.clientOf peer = some c then { p with connections := Maps.delete peer p.connections } else p

/-- Settle the promise of a connect in progress. -/
def settle (st : ℕ) (outcome : Except Failure ℕ) (p : Pool) : Pool :=
  { p with attempts := p.attempts.modify st fun a => { a with outcome := some outcome } }

def forgetAttempt (peer : JsString) (st : ℕ) (p : Pool) : Pool :=
  if Maps.get p.connectingByNodeId peer = some st then
    { p with connectingByNodeId := Maps.delete peer p.connectingByNodeId }
  else p

/-- A new connect in progress. -/
def beginAttempt (peer binding : JsString) (p : Pool) : Pool :=
  { p with
    attempts := p.attempts ++ [⟨binding, false, none⟩]
    connectingByNodeId := Maps.set peer p.attempts.length p.connectingByNodeId }

/-- The client that `quic.connect` has made is closed without having been pooled. -/
def dropNew (p : Pool) : Pool := disconnectClient false p.clients { p with clients := p.clients + 1 }

/-- The client that `quic.connect` has made is pooled. -/
def poolNew (peer binding : JsString) (now : ℕ) (p : Pool) : Pool :=
  { p with
    connections := Maps.set peer ⟨p.clients, binding, now⟩ p.connections
    clients := p.clients + 1 }

/-- The pooled connection is used again. -/
def touch (peer : JsString) (now : ℕ) (p : Pool) : Pool :=
  match Maps.get p.connections peer with
  | some e => { p with connections := Maps.set peer { e with lastUsedAt := now } p.connections }
  | none => p

end Pool

end Truyn.Transport
