import Truyn.Relay.Handlers

/-! relay:machine | one relay as a machine of segments

    A segment starts a command, resumes a handler where it awaits, or lets the ledger execute a
    call. Ledger calls are atomic; a call may also be lost before or after it is executed, or be
    given up by its caller while it is still in flight. Other processes that share the ledger make
    their own calls at any time (`peer`). -/

namespace Truyn.Relay
open Async Cas
open Ledger (Fault NeedStatus Time Record History Answer Awaited Book Call execute hostFault versions)

/-- The command a handler answers, and the request object it is about. -/
def Cont.command : Cont → Option (Command × Option Ref)
  | .fastNeedLooked q f t => some (.fastNeed q f t, none)
  | .fastNeedMatched q f t => some (.fastNeed q f t, none)
  | .fastNeedSwept q f t _ => some (.fastNeed q f t, none)
  | .fastNeedAdmitted q f t _ => some (.fastNeed q f t, none)
  | .legacyNeedLooked m => some (.legacyNeed m, none)
  | .legacyNeedMatched m => some (.legacyNeed m, none)
  | .legacyNeedAdmitted m _ => some (.legacyNeed m, none)
  | .expire _ _ k => k.command
  | .sweep _ k => k.command
  | .done => none
  | .resultLooked p f => some (.fastResult p f, none)
  | .resultRecovered c => some (c, none)
  | .resultChecked p f r => some (.fastResult p f, some r)
  | .resultCommitted p f r => some (.fastResult p f, some r)
  | .resultCompleted p f r => some (.fastResult p f, some r)
  | .legacyResultLooked m => some (.legacyResult m, none)
  | .legacyResultCommitted m r => some (.legacyResult m, some r)
  | .legacyResultCompleted m r => some (.legacyResult m, some r)
  | .chainMatched q f s _ => some (.chain q f s, none)
  | .stageMatched c _ _ => some (c, none)
  | .stageCompleted p f r _ => some (.fastResult p f, some r)
  | .revokeLooked m r => some (.revoke m, r)
  | .revokeRecovered m => some (.revoke m, none)
  | .revokeTransitioned m => some (.revoke m, none)
  | .revokeChecked m r => some (.revoke m, some r)
  | .revokeCommitted m r => some (.revoke m, some r)
  | .statusRead q i r => some (.requestStatus q i, some r)
  | .statusAnswer c r => some (c, r)
  | .partialLooked p f => some (.fastPartial p f, none)
  | .partialRecovered c => some (c, none)
  | .partialChecked p f r => some (.fastPartial p f, some r)
  | .partialRetried p f r => some (.fastPartial p f, some r)
  | .partialCommitted p f r _ => some (.fastPartial p f, some r)

/-- An awaited fault: the expiry check swallows it, a reserved NEED gives its reservation back, every
    other handler answers with it. -/
def onFault (w : World) (f : Fault) (k : Cont) : Step :=
  match k with
  | .expire _ _ k => turn w k
  | .fastNeedAdmitted q frame t _ =>
    throwFault (w.unreserveFastTerminal q) (.fastNeed q frame t) none f
  | k =>
    match k.command with
    | some (c, r) => throwFault w c r f
    | none => (w, [])

/-- A handler goes on with what it awaited. -/
def proceed (o : Options) (e : Env o) (w : World) (a : Awaited) (k : Cont) : Step :=
  match k with
  | .fastNeedLooked q frame t =>
    if a.need.isSome then throwFault w (.fastNeed q frame t) none duplicateRequest
    else
      match frame.capability with
      | none => answer w (.fastNeed q frame t) none 400 (some "invalid_capability")
      | some _ => turn w (.fastNeedMatched q frame t)
  | .fastNeedMatched q frame t =>
    match e.offer with
    | .error f => throwFault w (.fastNeed q frame t) none f
    | .ok none => noOffer o w (.fastNeed q frame t)
    | .ok (some provider) =>
      expireAbandonedFastRequests o e w false (.fastNeedSwept q frame t provider)
  | .fastNeedSwept q frame t provider => admitFastNeed o w q frame t provider
  | .fastNeedAdmitted q frame t provider => dispatchFastNeed o e w q frame t provider
  | .legacyNeedLooked m =>
    if a.need.isSome then throwFault w (.legacyNeed m) none duplicateRequest
    else if !insideAdmissionWindow m.createdAt e.now then
      throwFault w (.legacyNeed m) none ⟨400, "need_outside_acceptance_window"⟩
    else
      match m.capability with
      | none => answer w (.legacyNeed m) none 400 (some "invalid_capability")
      | some _ => turn w (.legacyNeedMatched m)
  | .legacyNeedMatched m =>
    match e.offer with
    | .error f => throwFault w (.legacyNeed m) none f
    | .ok none => noOffer o w (.legacyNeed m)
    | .ok (some provider) => admitLegacyNeed o e w m provider
  | .legacyNeedAdmitted m provider => dispatchLegacyNeed o e w m provider
  | .expire r now k => turn (failExpired w r now) k
  | .sweep now k => sweepNext o e w now k
  | .done => (w, [])
  | .resultLooked p frame =>
    recoverResult o w (.fastResult p frame) frame.i p (js "fast") frame.digest a.need
  | .resultRecovered c => answer w c none 200 none
  | .resultChecked p frame r => checkResult w e.now p frame r
  | .resultCommitted p frame r =>
    turn (completeRequest w r p e.now) (.resultCompleted p frame r)
  | .resultCompleted p frame r => deliverFastResult o e w p frame r
  | .legacyResultLooked m =>
    recoverResult o w (.legacyResult m) m.requestId m.sender (js "legacy") m.id a.need
  | .legacyResultCommitted m r =>
    turn (completeRequest w r m.sender e.now) (.legacyResultCompleted m r)
  | .legacyResultCompleted m r => deliverLegacyResult o e w m r
  | .chainMatched q frame s i => matchChain o e w q frame s i
  | .stageMatched c chain i => matchChainStage o e w c chain i
  | .stageCompleted p frame r chain => storeStageResult e w p frame r chain
  | .revokeLooked m r => if r.isSome ∨ e.needFound then revokeNeed e w m r else (w, [])
  | .revokeRecovered m => recoverRevoke w m a.need
  | .revokeTransitioned m => answer w (.revoke m) none 200 none
  | .revokeChecked m r => checkRevoke o e w m r
  | .revokeCommitted m r => commitRevoke o e w m r
  | .statusRead q i r => readStatus e w q i r a.need
  | .statusAnswer c r => answer w c r 200 none
  | .partialLooked p frame => recoverPartial o w p frame a.need
  | .partialRecovered c => answer w c none 200 none
  | .partialChecked p frame r => checkPartial w p frame r
  | .partialRetried p frame r => answer w (.fastPartial p frame) (some r) 200 none
  | .partialCommitted p frame r expected =>
    match a with
    | .answer (.accepted true) => answer w (.fastPartial p frame) (some r) 200 none
    | _ => commitPartial o e w p frame r expected

/-- Resume a handler. -/
def resume (o : Options) (e : Env o) (w : World) (a : Awaited) (k : Cont) : Step :=
  match a with
  | .fault f => onFault w f k
  | a => proceed o e w a k

/-- The first segment of a command. -/
def startCommand (o : Options) (e : Env o) (w : World) : Command → Step
  | .fastNeed q frame t => startFastNeed e w q frame t
  | .legacyNeed m => startLegacyNeed e w m
  | .fastResult p frame => startFastResult e w p frame
  | .legacyResult m => startLegacyResult e w m
  | .fastPartial p frame => startFastPartial e w p frame
  | .revoke m => startRevoke e w m
  | .requestStatus q i => startStatus w q i
  | .chain q frame s => startChain e w q frame s
  | .sweep force => expireAbandonedFastRequests o e w force .done

/-! ### The ledger -/

/-- The ledger executes a call. -/
def execCall (w : World) (c : Call) (about : Id) (now : Time) : World × Awaited :=
  ({ w with ledger := (execute w.ledger c about now).1 }, (execute w.ledger c about now).2)

/-- What happens next. `read` serves a record as it was `age` versions ago; `lose` executes a call
    and loses its reply, `giveUp` leaves it in flight, `fail` drops it. -/
inductive Input
  | start (c : Command)
  | go
  | exec
  | lose (f : Fault)
  | giveUp (f : Fault)
  | fail (f : Fault)
  | read (age : ℕ)
  | peer (c : Call) (about : Id)
  | chainTimeout (chain : Ref)
  | resultWaitTimeout (id : Id)
  | setFastWaiter (nodeId : Id) (b : Bool)
  | setLegacyWaiter (nodeId : Id) (b : Bool)
  | takeEvents (nodeId : Id) (legacy fast terminal : ℕ)
  | evict (nodeId : Id)

/-- The timer of a chain. -/
def chainTimeout (w : World) (chain : Ref) (now : Time) : World :=
  if w.chainTerminal chain then w else closeChain w chain 504 now

/-- Polls and fresh sockets take the oldest events of a node. -/
def takeEvents (w : World) (nodeId : Id) (legacy fast terminal : ℕ) : World :=
  ((w.setEvents nodeId ((w.events nodeId).drop legacy)).setFastEvents nodeId
    ((w.fastEvents nodeId).drop fast)).setFastTerminalEvents nodeId
      ((w.fastTerminalEvents nodeId).drop terminal)

/-- `commitStaleNodeEviction`, as far as requests go. -/
def evict (w : World) (nodeId : Id) : World :=
  let w := ((w.setEvents nodeId []).setFastEvents nodeId []).setFastTerminalEvents nodeId []
  { w.setReservations nodeId 0 with
    successfulTasks := Function.update w.successfulTasks nodeId 0 }

/-- One relay. -/
def machine (o : Options) : Machine World Task (Input × Env o)
  | w, none, (.start c, e) => some (startCommand o e w c)
  | w, none, (.peer c about, e) => some ((execCall w c about e.now).1, [])
  | w, none, (.chainTimeout chain, e) => some (chainTimeout w chain e.now, [])
  | w, none, (.resultWaitTimeout id, _) => some (w.setResultWaiter id false, [])
  | w, none, (.setFastWaiter n b, _) => some (w.setFastWaiter n b, [])
  | w, none, (.setLegacyWaiter n b, _) => some (w.setLegacyWaiter n b, [])
  | w, none, (.takeEvents n l f t, _) => some (takeEvents w n l f t, [])
  | w, none, (.evict n, _) => some (evict w n, [])
  | w, some (.call c k), (.exec, e) =>
    some ((execCall w c [] e.now).1, [.resume (execCall w c [] e.now).2 k])
  | w, some (.call c k), (.lose f, e) =>
    if hostFault f then some ((execCall w c [] e.now).1, [.resume (.fault f) k]) else none
  | w, some (.call c k), (.giveUp f, _) =>
    if hostFault f then some (w, [.resume (.fault f) k, .call c .done]) else none
  | w, some (.call _ k), (.fail f, _) =>
    if hostFault f then some (w, [.resume (.fault f) k]) else none
  | w, some (.read id k), (.read age, _) =>
    some (w, [.resume (.record (History.record ((versions w.ledger id).drop age))) k])
  | w, some (.read _ k), (.fail f, _) =>
    if hostFault f then some (w, [.resume (.fault f) k]) else none
  | w, some (.resume a k), (.go, e) => some (resume o e w a k)
  | _, _, _ => none

/-- A relay that has just started, over a ledger of some histories or none. -/
def init (ledger : Option Book) : Sys World Task := ⟨.start ledger, []⟩

/-! ### A small relay -/

/-- Options under which the schedules below run. -/
def small : Options :=
  { maxQueuedEventsPerNode := 8, maxRequests := 8, maxSeenNeedIds := 8, maxChains := 8
    maxFastTerminalReservationsPerRequester := 8, requestTtlMs := 1000
    expirySweepIntervalMs := 1000, paidNeedEnforcement := false, cosmos := false
    nodeIdFromPublicKey := fun k => k }

/-- Every node has a session and a socket, and the matching picks this provider. -/
def sunny (provider : Id) : Env small :=
  { now := 1, key := some, keys := fun _ _ h => (Option.some.inj h).symm ▸ rfl
    canDispatch := fun _ => true, link := fun _ => .writable, offer := .ok (some provider)
    next := none, auth := none, needFound := false }

/-- A frame that its sender signed. -/
def signed (t : FrameType) (id sender : Id) : Frame :=
  { t := t, i := id, key := sender, digest := [], sequence := none, failed := false
    capability := some [], stages := [] }

/-- A command arrives. -/
def arrive (c : Command) : Label (Input × Env small) := (none, .start c, sunny [2])

/-- The `n`-th suspended handler goes on. -/
def goOn (n : ℕ) : Label (Input × Env small) := (some n, .go, sunny [2])

/-- Node 1 asks NEED 9 of provider 2. -/
def askNeed : List (Label (Input × Env small)) :=
  [arrive (.fastNeed [1] (signed .NEED [9] [1]) 0), goOn 0, goOn 0, goOn 0, goOn 0]

end Truyn.Relay
