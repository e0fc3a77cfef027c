import Truyn.Ledger.Atomic

/-! relay:state | the memory of one relay, and the helpers its handlers share

    Handlers hold on to request and chain objects across awaits, while the maps `requests` and
    `chains` may forget them; so objects live in a heap and maps refer to them. `log` is what left
    the relay, latest first. What the relay does not decide is input to every segment (`Env`):
    clocks, sockets, sessions, and which offer the matching picks. -/

namespace Truyn.Relay
open Ledger (Fault NeedStatus Time Record Book)

abbrev Id := JsString

/-- An object of the heap. -/
abbrev Ref := ℕ

/-- The options of `createRelay` that its handlers read; `cosmos` is the kind of the ledger. -/
structure Options where
  maxQueuedEventsPerNode : ℕ
  maxRequests : ℕ
  maxSeenNeedIds : ℕ
  maxChains : ℕ
  maxFastTerminalReservationsPerRequester : ℕ
  requestTtlMs : ℕ
  expirySweepIntervalMs : ℕ
  paidNeedEnforcement : Bool
  cosmos : Bool
  nodeIdFromPublicKey : JsString → Id

inductive FrameType | NEED | PARTIAL | RESULT | CHAIN
  deriving DecidableEq

/-- A compact frame with what its payload tells the relay; `key` verifies the signature, `digest`
    is the hash of frame and payload. -/
structure Frame where
  t : FrameType
  i : Id
  key : JsString
  digest : JsString
  sequence : Option ℤ
  failed : Bool
  capability : Option JsString
  stages : List (Option JsString)
  deriving DecidableEq

inductive TargetKind | auto | need | offer
  deriving DecidableEq

/-- A signed legacy envelope with what its payload tells the relay. -/
structure Envelope where
  id : Id
  sender : Id
  createdAt : Time
  capability : Option JsString
  requestId : Id
  targetId : Id
  targetKind : TargetKind
  deriving DecidableEq

inductive Signed
  | frame (f : Frame)
  | envelope (e : Envelope)
  deriving DecidableEq

inductive Mode | fast | legacy | chainStage
  deriving DecidableEq

/-- How an event was handed over; `full` means it was not. -/
inductive Transport
  | socket | longPoll | queued | queuedAfterBackpressure | durableOutbox | full
  deriving DecidableEq

/-- The stage of a chain that a request is for; `owner` is the chain object that dispatched it. -/
structure Stage where
  owner : Ref
  chainId : Id
  stageIndex : ℕ
  deriving DecidableEq

structure Request where
  needId : Id
  requester : Id
  provider : Id
  capability : JsString
  createdAt : Time
  status : NeedStatus
  mode : Mode
  nextPartialSequence : ℕ
  partialCount : ℕ
  lastPartialSequence : Option ℤ
  lastPartialDigest : Option JsString
  lastPartialTransport : Option Transport
  lastPartialAt : Option Time
  terminalReserved : Bool
  completedAt : Option Time
  cancelledAt : Option Time
  failedAt : Option Time
  failureReason : Option String
  result : Option Envelope
  stage : Option Stage
  deriving DecidableEq

/-- The RESULT of a stage: the signed frame and the provider it is from. -/
structure StageResult where
  frame : Frame
  sender : Id
  deriving DecidableEq

inductive ChainStatus | running | completed | failed
  deriving DecidableEq

/-- `currentStage` is `none` before the first stage (-1 in the source). -/
structure Chain where
  chainId : Id
  requester : Id
  frame : Frame
  socket : Bool
  createdAt : Time
  status : ChainStatus
  currentStage : Option ℕ
  providers : ℕ → Option Id
  results : ℕ → Option StageResult
  completedAt : Option Time

inductive Event
  | NEED (id sender : Id)
  | PARTIAL (request : Ref) (frame : Frame)
  | RESULT (request : Ref) (body : Signed)
  | REVOKE (targetId : Id)
  | CHAIN_STAGE (chain : Ref) (stageIndex : ℕ) (requestId : Id) (priorResult : Option StageResult)
  deriving DecidableEq

/-- What clients ask for. -/
inductive Command
  | fastNeed (requester : Id) (frame : Frame) (waitMs : ℕ)
  | legacyNeed (envelope : Envelope)
  | fastResult (provider : Id) (frame : Frame)
  | legacyResult (envelope : Envelope)
  | fastPartial (provider : Id) (frame : Frame)
  | revoke (envelope : Envelope)
  | requestStatus (requester : Id) (requestId : Id)
  | chain (requester : Id) (frame : Frame) (socket : Bool)
  | sweep (force : Bool)
  deriving DecidableEq

/-- What leaves the relay: events, counted successes, answers to commands (with the request object
    they are about), closed chains, and stage results as they are stored. -/
inductive Output
  | sent (recipient : Id) (event : Event) (transport : Transport)
  | succeeded (provider : Id) (request : Ref)
  | answered (command : Command) (request : Option Ref) (status : ℕ) (error : Option String)
  | chainResult (chain : Ref) (status : ℕ)
  | stored (chain : Ref) (stageIndex : ℕ) (result : StageResult)
  deriving DecidableEq

structure World where
  requests : List (Id × Ref)
  objs : List Request
  chains : List (Id × Ref)
  chainObjs : List Chain
  seenNeedIds : List Id
  inFlightByProvider : Id → ℕ
  fastTerminalReservations : Id → ℕ
  events : Id → List Event
  fastEvents : Id → List Event
  fastTerminalEvents : Id → List Event
  fastWaiters : Id → Bool
  legacyWaiters : Id → Bool
  resultWaiters : Id → Bool
  successfulTasks : Id → ℕ
  lastExpirySweepAt : Time
  ledger : Option Book
  log : List Output

/-- A relay that has just started. -/
def World.start (ledger : Option Book) : World :=
  { requests := [], objs := [], chains := [], chainObjs := [], seenNeedIds := []
    inFlightByProvider := fun _ => 0, fastTerminalReservations := fun _ => 0
    events := fun _ => [], fastEvents := fun _ => [], fastTerminalEvents := fun _ => []
    fastWaiters := fun _ => false, legacyWaiters := fun _ => false, resultWaiters := fun _ => false
    successfulTasks := fun _ => 0, lastExpirySweepAt := 0, ledger := ledger, log := [] }

/-- The state of a node's socket: none, its buffer full, or writable. -/
inductive Link | absent | saturated | writable
  deriving DecidableEq

/-- Input to one segment. `key` gives the registered key of a node with a live session; a node is
    registered under the fingerprint of its key. `offer` is what `matchingOffers` and `paidGrant`
    give: a fault, no offer, or the provider picked. `next` is the entry an expiry sweep visits
    next. `auth` refuses a legacy envelope. `needFound` tells an automatic REVOKE target. -/
structure Env (o : Options) where
  now : Time
  key : Id → Option JsString
  keys : ∀ p k, key p = some k → o.nodeIdFromPublicKey k = p
  canDispatch : Id → Bool
  link : Id → Link
  offer : Except Fault (Option Id)
  next : Option Ref
  auth : Option (ℕ × String)
  needFound : Bool

/-! ### Maps -/

/-- `map.get`. -/
def lookup (m : List (Id × Ref)) (id : Id) : Option Ref := (m.find? fun p => p.1 = id).map Prod.snd

/-- `map.set`: a present key keeps its place. -/
def insert (m : List (Id × Ref)) (id : Id) (r : Ref) : List (Id × Ref) :=
  if (lookup m id).isSome then m.map fun p => if p.1 = id then (id, r) else p else m ++ [(id, r)]

/-- The loop of `pruneCompleted`: drop terminal entries until fewer than `maxSize` are left. -/
def pruneLoop (terminal : Ref → Bool) (maxSize : ℕ) :
    List (Id × Ref) → List (Id × Ref) → List (Id × Ref)
  | kept, [] => kept
  | kept, p :: rest =>
    let kept' := if terminal p.2 then kept else kept ++ [p]
    if kept'.length + rest.length < maxSize then kept' ++ rest
    else pruneLoop terminal maxSize kept' rest

/-- `pruneCompleted`: the pruned map, and whether it has room. -/
def pruneCompleted (terminal : Ref → Bool) (maxSize : ℕ) (m : List (Id × Ref)) :
    List (Id × Ref) × Bool :=
  if m.length < maxSize then (m, true)
  else
    let m' := pruneLoop terminal maxSize [] m
    (m', m'.length < maxSize)

namespace World

variable (w : World)

/-- `requests.get`. -/
def request (id : Id) : Option Ref := lookup w.requests id

/-- `requests.has`. -/
def hasRequest (id : Id) : Bool := (w.request id).isSome

def emit (out : Output) : World := { w with log := out :: w.log }

/-- Change a request object. -/
def modify (r : Ref) (f : Request → Request) : World := { w with objs := w.objs.modify r f }

/-- Change a chain object. -/
def modifyChain (c : Ref) (f : Chain → Chain) : World :=
  { w with chainObjs := w.chainObjs.modify c f }

def setInFlight (provider : Id) (n : ℕ) : World :=
  { w with inFlightByProvider := Function.update w.inFlightByProvider provider n }

def setReservations (nodeId : Id) (n : ℕ) : World :=
  { w with fastTerminalReservations := Function.update w.fastTerminalReservations nodeId n }

def setEvents (nodeId : Id) (l : List Event) : World :=
  { w with events := Function.update w.events nodeId l }

def setFastEvents (nodeId : Id) (l : List Event) : World :=
  { w with fastEvents := Function.update w.fastEvents nodeId l }

def setFastTerminalEvents (nodeId : Id) (l : List Event) : World :=
  { w with fastTerminalEvents := Function.update w.fastTerminalEvents nodeId l }

def setFastWaiter (nodeId : Id) (b : Bool) : World :=
  { w with fastWaiters := Function.update w.fastWaiters nodeId b }

def setLegacyWaiter (nodeId : Id) (b : Bool) : World :=
  { w with legacyWaiters := Function.update w.legacyWaiters nodeId b }

def setResultWaiter (id : Id) (b : Bool) : World :=
  { w with resultWaiters := Function.update w.resultWaiters id b }

def requestTerminal (r : Ref) : Bool := (w.objs[r]?).any fun q => q.status ≠ .matched

def chainTerminal (c : Ref) : Bool := (w.chainObjs[c]?).any fun q => q.status ≠ .running

/-! ### Requests -/

/-- `markMatchedRequest` for an id that is free: a new object under its id. -/
def markMatchedRequest (q : Request) : World :=
  { w.setInFlight q.provider (w.inFlightByProvider q.provider + 1) with
    requests := w.requests ++ [(q.needId, w.objs.length)]
    objs := w.objs ++ [q] }

/-- `markRequestStatus`: overwrites the status whatever it was. -/
def markRequestStatus (r : Ref) (status : NeedStatus) : World :=
  match w.objs[r]? with
  | none => w
  | some q =>
    (if q.status = .matched ∧ status ≠ .matched then
      w.setInFlight q.provider (w.inFlightByProvider q.provider - 1) else w).modify r
        fun q => { q with status := status }

/-- `reserveFastTerminal`: `none` when the requester's terminal events have no room left. -/
def reserveFastTerminal (o : Options) (nodeId : Id) : Option World :=
  if o.maxFastTerminalReservationsPerRequester ≤
      (w.fastTerminalEvents nodeId).length + w.fastTerminalReservations nodeId then none
  else some (w.setReservations nodeId (w.fastTerminalReservations nodeId + 1))

/-- One reservation less. -/
def unreserveFastTerminal (nodeId : Id) : World :=
  w.setReservations nodeId (w.fastTerminalReservations nodeId - 1)

/-- `releaseFastTerminal`. -/
def releaseFastTerminal (r : Ref) : World :=
  match w.objs[r]? with
  | none => w
  | some q =>
    if q.terminalReserved then
      (w.modify r fun q => { q with terminalReserved := false }).unreserveFastTerminal q.requester
    else w

/-- `finishResultWaiter`: whether a waiter was answered, and the world after it. -/
def finishResultWaiter (id : Id) : World × Bool :=
  if w.resultWaiters id then (w.setResultWaiter id false, true) else (w, false)

/-! ### Events -/

/-- `boundedQueue`: the oldest events make room. -/
def boundedQueue (o : Options) (queue : List Event) (event : Event) : List Event :=
  (queue ++ [event]).drop (queue.length + 1 - o.maxQueuedEventsPerNode)

/-- `queueFast`. -/
def queueFast (o : Options) (e : Env o) (nodeId : Id) (event : Event) (requireCapacity : Bool) :
    World × Transport :=
  if e.link nodeId = .writable ∨ (e.link nodeId = .saturated ∧ !requireCapacity) then
    (w.emit (.sent nodeId event .socket), .socket)
  else if e.link nodeId = .saturated then (w, .full)
  else if w.fastWaiters nodeId then
    ((w.setFastWaiter nodeId false).emit (.sent nodeId event .longPoll), .longPoll)
  else if requireCapacity ∧ o.maxQueuedEventsPerNode ≤ (w.fastEvents nodeId).length then (w, .full)
  else ((w.setFastEvents nodeId (boundedQueue o (w.fastEvents nodeId) event)).emit
    (.sent nodeId event .queued), .queued)

/-- `queueFastTerminal`; a saturated socket is closed first. -/
def queueFastTerminal (o : Options) (e : Env o) (nodeId : Id) (event : Event) : World × Transport :=
  if e.link nodeId = .writable then (w.emit (.sent nodeId event .socket), .socket)
  else if w.fastWaiters nodeId then
    ((w.setFastWaiter nodeId false).emit (.sent nodeId event .longPoll), .longPoll)
  else if o.maxFastTerminalReservationsPerRequester ≤ (w.fastTerminalEvents nodeId).length then
    (w, .full)
  else ((w.setFastTerminalEvents nodeId (w.fastTerminalEvents nodeId ++ [event])).emit
    (.sent nodeId event .queued), .queued)

/-- `queue`, the path of legacy events: never refused. -/
def queue (o : Options) (e : Env o) (nodeId : Id) (event : Event) : World :=
  if e.link nodeId = .writable then w.emit (.sent nodeId event .socket)
  else if w.legacyWaiters nodeId then
    (w.setLegacyWaiter nodeId false).emit (.sent nodeId event .longPoll)
  else (w.setEvents nodeId (boundedQueue o (w.events nodeId) event)).emit
    (.sent nodeId event
      (if e.link nodeId = .saturated then .queuedAfterBackpressure else .queued))

/-- `queueCritical`: the world after it, and whether the event was taken. -/
def queueCritical (o : Options) (e : Env o) (nodeId : Id) (event : Event) : World × Bool :=
  if e.link nodeId = .writable then (w.emit (.sent nodeId event .socket), true)
  else if e.link nodeId = .saturated then (w, false)
  else if w.legacyWaiters nodeId then
    ((w.setLegacyWaiter nodeId false).emit (.sent nodeId event .longPoll), true)
  else if o.maxQueuedEventsPerNode ≤ (w.events nodeId).length then (w, false)
  else ((w.setEvents nodeId (w.events nodeId ++ [event])).emit (.sent nodeId event .queued), true)

/-- `queueCancellation`. -/
def queueCancellation (o : Options) (e : Env o) (q : Request) (event : Event) : World × Bool :=
  if q.mode = .fast then
    ((w.queueFast o e q.provider event true).1, (w.queueFast o e q.provider event true).2 ≠ .full)
  else w.queueCritical o e q.provider event

end World

/-- `verifyCompactFrame`: the type is expected and the signature is of the given key. -/
def verifyCompactFrame (frame : Frame) (key : JsString) (allowed : FrameType) :
    Except String Unit :=
  if frame.t ≠ allowed then .error "unsupported_type"
  else if frame.key ≠ key then .error "invalid_signature"
  else .ok ()

/-- `compactStageRequestId`: 15 code units of the chain id and the stage in base 36. -/
def compactStageRequestId (chainId : Id) (stageIndex : ℕ) : Id :=
  chainId.take 15 ++ js (String.ofList (Nat.toDigits 36 stageIndex))

/-- `assertNeedAdmissionWindow`: at most five minutes old, at most half a minute ahead. -/
def insideAdmissionWindow (createdAt now : Time) : Bool :=
  createdAt ≤ now + 30000 ∧ now ≤ createdAt + 300000

/-- `terminalRequestError`. -/
def terminalRequestError : NeedStatus → Option String
  | .cancelled => some "request_cancelled"
  | .completed => some "request_already_completed"
  | .failed => some "request_failed"
  | .matched => none

end Truyn.Relay
