import Truyn.A2a.Replay

/-! a2a:creation | createTaskFromRequest of server.js, and what it leaves when it fails

    What a request is checked for before its task is created changes no task; a push configuration that
    is refused takes its task with it; and a NEED that cannot be dispatched leaves a rejected task,
    whose message is remembered. Between these steps any other calls of the store may stand. -/

namespace Truyn.A2a
open Trust (Value truthy)

/-- An error, and the code that `a2aError` gives it. -/
structure Failure where
  message : JsString
  a2aCode : Option ℤ := none

def a2aError (code : ℤ) (message : String) : Failure := ⟨js message, some code⟩

/-! ### mapping.js -/

def textOf : Option Value → Option JsString
  | some (.string s) => some s
  | _ => none

/-- `typeof value === 'string' && value.trim()`. -/
def trimmed (value : Option Value) : Option JsString := Trust.normalizeOptional (textOf value)

def nonEmptyString (value : Option Value) (name : String) : Except Failure JsString :=
  match trimmed value with
  | some s => .ok s
  | none => .error ⟨js (name ++ " must be a non-empty string"), none⟩

def optionalText (part : Value) (key : String) : List (JsString × Value) :=
  (trimmed (part.get key)).toList.map fun s => (js key, .string s)

def optionalObject (part : Value) (key : String) : List (JsString × Value) :=
  ((part.get key).filter isObject).toList.map fun v => (js key, v)

def normalizePart (part : Value) : Except Failure Value :=
  if !isObject part then .error ⟨js "A2A message part must be an object", none⟩
  else
    match ["text", "data", "url", "raw"].filter fun key => (part.get key).isSome with
    | [content] =>
      if content = "raw" then
        .error (a2aError (-32005)
          "Inline raw A2A request parts are not supported by the bounded C3 facade")
      else if content = "text" ∧ textOf (part.get "text") = none then
        .error ⟨js "A2A text part requires string text", none⟩
      else if content = "url" ∧ textOf (part.get "url") = none then
        .error ⟨js "A2A URL part requires string url", none⟩
      else .ok (.object (((part.get content).toList.map fun v => (js content, v)) ++
        optionalText part "mediaType" ++ optionalText part "filename" ++
        optionalObject part "metadata"))
    | _ => .error ⟨js "A2A v1 Part must contain exactly one of text, data, url, raw", none⟩

/-- `value.map(String).filter(Boolean)`. -/
def texts (H : Host) (l : List Value) : Except Failure (List JsString) :=
  match l.mapM H.string with
  | some l => .ok (l.filter fun s => s ≠ [])
  | none => .error ⟨js "Cannot convert object to primitive value", none⟩

def normalizeA2aMessage (H : Host) (message : Option Value) : Except Failure Value := do
  let some message := message.filter isObject
    | throw ⟨js "A2A SendMessage requires message", none⟩
  if textOf (message.get "role") ≠ some (js "ROLE_USER") then
    throw ⟨js "A2A v1 SendMessage requires role ROLE_USER", none⟩
  let messageId ← nonEmptyString (message.get "messageId") "A2A messageId"
  let parts ← match message.get "parts" with
    | some (.array parts) =>
      if parts.length = 0 ∨ 64 < parts.length then
        throw ⟨js "A2A message parts must contain between 1 and 64 entries", none⟩
      else parts.mapM normalizePart
    | _ => throw ⟨js "A2A message parts must contain between 1 and 64 entries", none⟩
  let references ← match message.get "referenceTaskIds" with
    | some (.array l) =>
      (texts H l).map fun l => [(js "referenceTaskIds", Value.array (l.map .string))]
    | _ => pure []
  return .object ([(js "messageId", .string messageId), (js "role", .string (js "ROLE_USER")),
    (js "parts", .array parts)] ++ optionalText message "contextId" ++ optionalText message "taskId" ++
    references ++ optionalObject message "metadata")

/-! ### push-notification-store.js -/

/-- What `new URL(text)` tells, and its text. -/
structure PushUrl where
  protocol : JsString
  hostname : JsString
  username : JsString
  password : JsString
  hash : JsString
  text : JsString

structure PushConfig where
  tenant : JsString
  id : JsString
  taskId : JsString
  url : JsString
  token : JsString
  authentication : Option (JsString × JsString)

structure PushRecord where
  ownerKey : Option JsString
  config : PushConfig

/-- `A2aPushNotificationStore`; its tenant is the empty one. -/
abbrev PushStore := List (JsString × List (JsString × PushRecord))

def boundedString (value : Option Value) (name : String) (allowEmpty : Bool) (maxBytes : ℕ) :
    Except JsString JsString :=
  match textOf value with
  | none => .error (js (name ++ " must be a string"))
  | some s =>
    let normalized := trim s
    if !allowEmpty ∧ normalized = [] then .error (js (name ++ " must be a non-empty string"))
    else if maxBytes < byteLength normalized then .error (js (name ++ " exceeds byte limit"))
    else .ok normalized

/-- The server, as it was configured. -/
structure Facade where
  host : Host
  config : Config
  parseUrl : JsString → Option PushUrl
  enablePushNotifications : Bool
  maxConfigsPerTask : ℕ

variable (F : Facade)

def normalizePushUrl (value : Option Value) : Except JsString JsString := do
  let text ← boundedString value "A2A push notification url" false 8192
  let some url := F.parseUrl text | throw (js "Invalid URL")
  if url.protocol ≠ js "http:" ∧ url.protocol ≠ js "https:" then
    throw (js "A2A push notification url must use http or https")
  if url.username ≠ [] ∨ url.password ≠ [] then
    throw (js "A2A push notification url must not contain credentials")
  if url.hash ≠ [] then throw (js "A2A push notification url must not contain a fragment")
  if url.protocol ≠ js "https:" ∧ url.hostname ∉ [js "127.0.0.1", js "localhost", js "::1"] then
    throw (js "A2A push notification url must use https outside loopback")
  return url.text

def normalizeAuthentication (value : Option Value) :
    Except JsString (Option (JsString × JsString)) :=
  match value with
  | none | some .null => .ok none
  | some v => do
    if !isObject v then throw (js "A2A push notification authentication must be an object")
    let scheme ← boundedString (v.get "scheme") "A2A push notification authentication scheme" false 256
    let credentials ← boundedString (v.get "credentials")
      "A2A push notification authentication credentials" true (16 * 1024)
    return some (scheme, credentials)

def normalizeTaskPushNotificationConfig (config : Value) (taskId uuid : JsString) :
    Except JsString PushConfig := do
  if !isObject config then throw (js "A2A TaskPushNotificationConfig must be an object")
  let authoritativeTaskId ← boundedString (some (.string taskId)) "A2A taskId" false 8192
  match config.get "taskId" with
  | none | some .null => pure ()
  | some v =>
    let some claimed := F.host.string v | throw (js "Cannot convert object to primitive value")
    if trim claimed ≠ [] ∧ trim claimed ≠ authoritativeTaskId then
      throw (js "A2A push notification taskId does not match authoritative task")
  let id ← match trimmed (config.get "id") with
    | some _ => boundedString (config.get "id") "A2A push notification config id" false 1024
    | none => pure uuid
  if (trimmed (config.get "tenant")).isSome then
    throw (js "A2A push notification tenant does not match authoritative tenant")
  let url ← normalizePushUrl F (config.get "url")
  let token ← match textOf (config.get "token") with
    | some _ => boundedString (config.get "token") "A2A push notification token" true (8 * 1024)
    | none => pure []
  let authentication ← normalizeAuthentication (config.get "authentication")
  return ⟨[], id, authoritativeTaskId, url, token, authentication⟩

/-- `pushStore.create(task, ownerKey, config, { tenant: '' })`. -/
def PushStore.create (push : PushStore) (task : Task) (ownerKey : Option JsString) (config : Value)
    (uuid : JsString) : Except JsString PushStore := do
  if task.ownerKey ≠ ownerKey then throw (js "A2A push configuration owner mismatch")
  let normalized ← normalizeTaskPushNotificationConfig F config task.id uuid
  let configs := (Maps.get push task.id).getD []
  if Maps.get configs normalized.id = none ∧ F.maxConfigsPerTask ≤ configs.length then
    throw (js "A2A push notification config capacity reached for task")
  return Maps.set task.id (Maps.set normalized.id ⟨ownerKey, normalized⟩ configs) push

/-! ### server.js -/

structure Skill where
  id : JsString
  capability : JsString
  outputModes : List JsString

structure Auth where
  principal : Value
  ownerKey : Option JsString

/-- What the deployment answers to a request. -/
structure Hooks where
  requestAuth : Except Failure Auth
  visibleSkills : Value → Except Failure (List Skill)
  selectSkill : Option (Value → Value → List Skill → Except Failure Value)
  mapInput : Skill → Option (Value → Except Failure (Option Value))
  buildPolicy : Option (Value → Skill → Value → Except Failure Value)

/-- A request that may have a task. -/
structure Admitted where
  principal : Value
  ownerKey : Option JsString
  message : Value
  skill : Skill
  pushConfig : Option Value

def chooseSkill (hooks : Hooks) (message principal : Value) : Except Failure Skill := do
  let candidates ← hooks.visibleSkills principal
  let requestedId := ((message.get "metadata").bind fun m => textOf (m.get "io.truyn/skillId")).filter
    fun s => s ≠ []
  match requestedId, candidates with
  | some id, _ =>
    match candidates.find? fun skill => skill.id = id with
    | some skill => return skill
    | none => throw (a2aError (-32602) "Invalid parameters")
  | none, [skill] => return skill
  | none, [] => throw (a2aError (-32602) "No authorized A2A skill is available")
  | none, _ =>
    let some select := hooks.selectSkill
      | throw (a2aError (-32602)
          "Multiple authorized A2A skills require a server-side selection policy")
    let selected ← select message principal candidates
    let id := (textOf (some selected)).or (textOf (selected.get "id"))
    match candidates.find? fun skill => some skill.id = id with
    | some skill => return skill
    | none => throw (a2aError (-32602) "A2A selection policy returned an unauthorized skill")

/-- `store.getAccessible`, and what is thrown for a message that names a task. -/
def refuseContinuation (c : Config) (s : TaskStore) (taskId : JsString) (ownerKey : Option JsString)
    (allowAnonymous : Bool) (nowMs : ℤ) : TaskStore × Failure :=
  match s.prune c nowMs with
  | (s, false) => (s, ⟨js "A2A task capacity reached", none⟩)
  | (s, true) =>
    let accessible := (Maps.get s.tasks taskId).any fun task =>
      if task.ownerKey = none then allowAnonymous else task.ownerKey = ownerKey
    (s, if accessible then a2aError (-32004)
        "Task continuation is not supported by the bounded A2A facade"
      else a2aError (-32001) "Task not found")

def configuration (params : Value) (key : String) : Option Value :=
  (params.get "configuration").bind fun v => v.get key

/-- Up to `store.create`. -/
def admitRequest (hooks : Hooks) (allowAnonymous : Bool) (s : TaskStore) (nowMs : ℤ) (params : Value) :
    TaskStore × Except Failure Admitted :=
  let checked : Except Failure (Value × Auth) := do
    if !isObject params then throw (a2aError (-32602) "Invalid parameters")
    let message ← normalizeA2aMessage F.host (params.get "message")
    return (message, ← hooks.requestAuth)
  match checked with
  | .error e => (s, .error e)
  | .ok (message, auth) =>
    match textOf (message.get "taskId") with
    | some taskId =>
      let (s, e) := refuseContinuation F.config s taskId auth.ownerKey allowAnonymous nowMs
      (s, .error e)
    | none =>
      match chooseSkill hooks message auth.principal with
      | .error e => (s, .error e)
      | .ok skill =>
        let supported := match configuration params "acceptedOutputModes" with
          | some (.array modes) => modes.all fun mode =>
            (textOf (some mode)).any fun t => skill.outputModes.contains t
          | _ => true
        if supported then
          (s, .ok ⟨auth.principal, auth.ownerKey, message, skill,
            configuration params "taskPushNotificationConfig"⟩)
        else (s, .error (a2aError (-32005) "Requested output mode is not supported"))

/-- The readings of the clock, and the UUIDs. -/
structure Opening where
  pruneMs : ℤ
  createdAtMs : ℤ
  taskUuid : JsString
  contextUuid : JsString
  configUuid : JsString

def Admitted.args (a : Admitted) (o : Opening) : CreateArgs where
  ownerKey := a.ownerKey
  contextId := textOf (a.message.get "contextId")
  message := a.message
  skillId := a.skill.id
  capability := a.skill.capability
  pruneMs := o.pruneMs
  createdAtMs := o.createdAtMs
  taskUuid := o.taskUuid
  contextUuid := o.contextUuid

/-- The stores of the server. -/
structure Stores where
  store : TaskStore
  push : PushStore
  pushCursorByTaskId : List (JsString × ℕ)

def createFailure : CreateError → Failure
  | .taskCapacity => ⟨js "A2A task capacity reached", none⟩
  | .messageIdReplay => ⟨js "A2A messageId replay detected", none⟩
  | .replayCapacity => ⟨js "A2A replay marker capacity reached", none⟩

/-- `store.create` and the push configuration; nothing comes between them. -/
def openTask (v : Stores) (a : Admitted) (o : Opening) : Stores × Except Failure Task :=
  match v.store.create F.config (a.args o) with
  | (store, .error e) => ({ v with store := store }, .error (createFailure e))
  | (store, .ok task) =>
    match a.pushConfig with
    | none => ({ v with store := store }, .ok task)
    | some config =>
      if !F.enablePushNotifications then
        ({ v with store := store },
          .error (a2aError (-32003) "Push notifications are not enabled"))
      else
        match v.push.create F task a.ownerKey config o.configUuid with
        | .ok push =>
          (⟨store, push, Maps.set task.id task.streamEvents.length v.pushCursorByTaskId⟩, .ok task)
        | .error _ =>
          ({ v with store := store.delete task.id true },
            .error (a2aError (-32602) "Invalid task push notification configuration"))

/-- `defaultTruynInputFromA2a`. -/
def defaultTruynInput (message : Value) : Value :=
  .object [(js "a2a", .object ((js "protocolVersion", .string (js "1.0")) ::
      ["messageId", "contextId", "taskId", "referenceTaskIds"].flatMap fun key =>
        ((message.get key).filter fun v => match v with
          | .array l => !l.isEmpty
          | v => truthy (some v)).toList.map fun v => (js key, v))),
    (js "parts", (message.get "parts").getD .null)]

/-- The input and the policy of the NEED; no store is reached. -/
def prepare (hooks : Hooks) (a : Admitted) (task : Task) :
    Except Failure (Value × List (JsString × Value)) := do
  let input ← match hooks.mapInput a.skill with
    | none => pure (defaultTruynInput a.message)
    | some mapInput =>
      let some mapped ← mapInput a.message
        | throw ⟨js "A2A skill " ++ a.skill.id ++ js " mapInput returned undefined", none⟩
      pure mapped
  let policy ← match hooks.buildPolicy with
    | none => pure []
    | some buildPolicy =>
      match ← buildPolicy a.principal a.skill a.message with
      | .object m => pure m
      | _ => throw ⟨js "A2A buildPolicy must return an object", none⟩
  return (input, Maps.set (js "interoperability") (.object [(js "protocol", .string (js "a2a")),
    (js "protocolVersion", .string (js "1.0")), (js "taskId", .string task.id),
    (js "contextId", .string task.contextId), (js "messageId", (a.message.get "messageId").getD .null),
    (js "skillId", .string a.skill.id)]) policy)

/-- What came of `ensureRegistered` and `node.need`: the need, or the reason that the error gives. -/
abbrev Answer := Except Value StartArgs

/-- Why the task is not started, if it is not. -/
def dispatchFailure (c : Config) (s : TaskStore) (taskId : JsString) (answer : Answer) (nowMs : ℤ) :
    Option Value :=
  match answer with
  | .error reason => some reason
  | .ok a =>
    match s.start c taskId a nowMs with
    | some _ => none
    | none => some (.string (if Maps.get s.tasks taskId = none then js "A2A task not found"
        else js "TRUYN request id is required"))

/-- What `dispatch` leaves, and whether it throws: `reject` does where the reason has no text. -/
def dispatch (s : TaskStore) (taskId : JsString) (answer : Answer) (uuid : JsString) (nowMs : ℤ) :
    TaskStore × Bool :=
  match dispatchFailure F.config s taskId answer nowMs, answer with
  | none, .ok a => ((s.start F.config taskId a nowMs).getD s, false)
  | none, .error _ => (s, false)
  | some reason, _ =>
    match s.reject F.host F.config taskId reason uuid nowMs with
    | some s' => (s', false)
    | none => (s, (Maps.get s.tasks taskId).isSome)

/-! ### Requests -/

/-- Where a request is: it waits for the answers of the deployment, or of the relay. -/
inductive Phase
  | arrived
  | admitted (a : Admitted)
  | opened (a : Admitted) (task : Task)
  | prepared (task : Task)
  | failed (e : Failure)
  | returned (task : Task)

structure Request where
  params : Value
  hooks : Hooks
  phase : Phase

/-- The stores, the clock, and every request that there has been. -/
structure System where
  world : World
  push : PushStore
  pushCursorByTaskId : List (JsString × ℕ)
  now : ℤ
  requests : List Request

def System.init (now : ℤ) : System := ⟨.init, [], [], now, []⟩

def System.turn (y : System) (r : ℕ) (phase : Phase) : System :=
  { y with requests := y.requests.modify r fun q => { q with phase := phase } }

def failedOr {α : Type} (result : Except Failure α) (next : α → Phase) : Phase :=
  match result with
  | .ok x => next x
  | .error e => .failed e

/-- Requests go on between other calls of the task store. -/
inductive Event
  | arrive (params : Value) (hooks : Hooks)
  | admitRequest (r : ℕ) (allowAnonymous : Bool) (nowMs : ℤ)
  | openTask (r : ℕ) (o : Opening)
  | prepare (r : ℕ)
  | dispatch (r : ℕ) (answer : Answer) (uuid : JsString) (nowMs : ℤ)
  | call (o : Op)

/-- `none` where the event is not due, a UUID is drawn twice, or the clock goes back. -/
def advance (y : System) : Event → Option System
  | .arrive params hooks => some { y with requests := y.requests ++ [⟨params, hooks, .arrived⟩] }
  | .admitRequest r allowAnonymous nowMs =>
    match y.requests[r]? with
    | some ⟨params, hooks, .arrived⟩ =>
      if y.now ≤ nowMs then
        let (store, result) := admitRequest F hooks allowAnonymous y.world.store nowMs params
        some { y.turn r (failedOr result .admitted) with
          world := { y.world with store := store }, now := nowMs }
      else none
    | _ => none
  | .openTask r o =>
    match y.requests[r]? with
    | some ⟨_, _, .admitted a⟩ =>
      if y.now ≤ o.pruneMs ∧ o.pruneMs ≤ o.createdAtMs ∧ o.taskUuid ∉ y.world.issued then
        let (v, result) := openTask F ⟨y.world.store, y.push, y.pushCursorByTaskId⟩ a o
        some { y.turn r (failedOr result (.opened a)) with
          world := ⟨v.store, o.taskUuid :: y.world.issued, o.taskUuid :: y.world.fresh⟩
          push := v.push, pushCursorByTaskId := v.pushCursorByTaskId, now := o.createdAtMs }
      else none
    | _ => none
  | .prepare r =>
    match y.requests[r]? with
    | some ⟨_, hooks, .opened a task⟩ =>
      some (y.turn r (failedOr (prepare hooks a task) fun _ => .prepared task))
    | _ => none
  | .dispatch r answer uuid nowMs =>
    match y.requests[r]? with
    | some ⟨_, _, .prepared task⟩ =>
      if y.now ≤ nowMs then
        let (store, threw) := dispatch F y.world.store task.id answer uuid nowMs
        some { y.turn r (if threw then .failed ⟨js "Cannot convert object to primitive value", none⟩
            else .returned task) with
          world := y.world.unfresh task.id store, now := nowMs }
      else none
    | _ => none
  | .call o =>
    match o.clock y.now, step F.host F.config y.world o with
    | some now, some world => some { y with world := world, now := now }
    | _, _ => none

def run (y : System) : List Event → Option System
  | [] => some y
  | ev :: evs => (advance F y ev).bind fun y' => run y' evs

/-! ### What a step leaves -/

variable {F} {H : Host} {c : Config} {s s' : TaskStore} {w w' : World} {y y' : System} {t : Task}
  {k : CorrelationKey} {now nowMs : ℤ} {r : ℕ}

theorem Timely.delete (h : Timely c w now) (taskId : JsString) (forget : Bool) :
    Timely c { w with store := w.store.delete taskId forget } now := by
  have hsub := (evolves_delete (s := w.store) (fun _ => False) taskId forget).tasks
  refine ⟨h.marked.delete _ _, fun floor => (h.lasting floor).delete h.marked _ _,
    fun id task hget => ?_, fun id task hget => ?_⟩
  · obtain ⟨task', hget', heq | ⟨hf, -⟩⟩ := hsub id task hget
    · exact heq ▸ h.past id task' hget'
    · exact hf.elim
  · obtain ⟨task', hget', -⟩ := hsub id task hget
    exact h.issued id task' hget'

theorem Timely.prune (h : Timely c w now) (hnow : now ≤ nowMs) :
    Timely c { w with store := (w.store.prune c nowMs).1 } nowMs :=
  (timely_step (H := ⟨fun _ _ => .error none, fun _ _ => .error none, fun _ => none⟩)
    (o := .prune nowMs) h trivial (if_pos hnow) rfl).1

variable {touched : JsString → Prop} {request : Option JsString} {v : Stores} {ev : Event}
  {evs : List Event} {q : Request} {task : Task}

theorem Timely.unfresh {guarded : Prop} {store : TaskStore} (h : Timely c w now)
    (hs : Mutates c guarded touched request nowMs w.store store) (hnow : now ≤ nowMs)
    (taskId : JsString) : Timely c (w.unfresh taskId store) nowMs := by
  have hboth : Timely c (w.unfresh taskId store) nowMs ∧
      Guards c w now (w.unfresh taskId store) nowMs := h.mutates hs rfl hnow
  exact hboth.1

variable {a : CreateArgs} {o : Opening}

/-- A task that is created and deleted at once leaves nothing. -/
theorem delete_created (h : Marked (s.prune c a.pruneMs).1)
    (hnew : Maps.get (s.prune c a.pruneMs).1.tasks a.taskUuid = none)
    (hcreate : s.create c a = (s', .ok t)) : s'.delete t.id true = (s.prune c a.pruneMs).1 := by
  have hcases := create_cases (s := s) (c := c) a
  rw [hcreate] at hcases
  generalize (s.prune c a.pruneMs).1 = p at *
  have hkey : Maps.get p.messageCorrelationByTaskId a.taskUuid = none := by
    cases hk : Maps.get p.messageCorrelationByTaskId a.taskUuid with
    | none => rfl
    | some key =>
      obtain ⟨task, htask⟩ := h.stored _ _ hk
      rw [hnew] at htask
      cases htask
  obtain ⟨tasks, requests, markers, correlation⟩ := p
  cases hcases with
  | plain _ =>
    simp only [TaskStore.delete, TaskStore.put, CreateArgs.task, Maps.get_set_self, hkey,
      Maps.delete_set hnew, Maps.delete_of_get hkey]
  | marked _ hfree =>
    simp only [TaskStore.delete, TaskStore.put, CreateArgs.task, Maps.get_set_self, if_true,
      Maps.delete_set hnew, Maps.delete_set hkey, Maps.delete_set hfree]

theorem create_refused_store {e : CreateError} (h : (s.create c a).2 = .error e) :
    (s.create c a).1 = (s.prune c a.pruneMs).1 := by
  have hcases := create_cases (s := s) (c := c) a
  generalize s.create c a = result at hcases h ⊢
  cases hcases with
  | refused => rfl
  | plain _ => cases h
  | marked _ _ => cases h

theorem Timely.created (h : Timely c w now) (hnow : now ≤ a.pruneMs)
    (hnew : a.taskUuid ∉ w.issued) : Marked (w.store.prune c a.pruneMs).1 ∧
      Maps.get (w.store.prune c a.pruneMs).1.tasks a.taskUuid = none := by
  have hpruned := h.prune hnow
  refine ⟨hpruned.marked, ?_⟩
  cases hget : Maps.get (w.store.prune c a.pruneMs).1.tasks a.taskUuid with
  | none => rfl
  | some task => exact absurd (hpruned.issued _ task hget) hnew

/-- The ways in which `openTask` ends. -/
inductive Opens (F : Facade) (v : Stores) (a : Admitted) (o : Opening) :
    Stores × Except Failure Task → Prop
  | refused {e : CreateError} (hcreate : (v.store.create F.config (a.args o)).2 = .error e) :
      Opens F v a o ({ v with store := (v.store.create F.config (a.args o)).1 },
        .error (createFailure e))
  | created {task : Task} {v' : Stores} {result : Except Failure Task}
      (hcreate : v.store.create F.config (a.args o) = (v'.store, .ok task))
      (hfailed : ∀ e, result = .error e → F.enablePushNotifications = false ∧ a.pushConfig ≠ none) :
      Opens F v a o (v', result)
  | undone {store : TaskStore} {task : Task} {e : Failure}
      (hcreate : v.store.create F.config (a.args o) = (store, .ok task)) :
      Opens F v a o ({ v with store := store.delete task.id true }, .error e)

theorem openTask_cases (v : Stores) (a : Admitted) (o : Opening) :
    Opens F v a o (openTask F v a o) := by
  unfold openTask
  split
  · next store e hcreate =>
    have hstore : store = (v.store.create F.config (a.args o)).1 := by rw [hcreate]
    subst hstore
    exact .refused (by rw [hcreate])
  · next store task hcreate =>
    split
    · exact .created hcreate fun e he => by cases he
    · next config hconfig =>
      split
      · next henabled =>
        exact .created hcreate fun e _ => ⟨by simpa using henabled, by simp [hconfig]⟩
      · split
        · exact .created hcreate fun e he => by cases he
        · exact .undone hcreate

theorem openTask_timely {a : Admitted} (h : Timely c w now) (hc : F.config = c)
    (hv : v.store = w.store) (hnow : now ≤ o.pruneMs) (hle : o.pruneMs ≤ o.createdAtMs)
    (hnew : o.taskUuid ∉ w.issued) :
    Timely c ⟨(openTask F v a o).1.store, o.taskUuid :: w.issued, o.taskUuid :: w.fresh⟩
      o.createdAtMs := by
  subst hc
  have hcreates := (h.creates (a := a.args o) hnow hle hnew).1
  rw [← hv] at hcreates
  have hcases := openTask_cases (F := F) v a o
  generalize openTask F v a o = result at hcases ⊢
  cases hcases with
  | refused => exact hcreates
  | created hcreate =>
    rw [hcreate] at hcreates
    exact hcreates
  | undone hcreate =>
    rw [hcreate] at hcreates
    exact hcreates.delete _ true

theorem admit_store (hooks : Hooks) (allowAnonymous : Bool) (params : Value) :
    (admitRequest F hooks allowAnonymous s nowMs params).1 = s ∨
      (admitRequest F hooks allowAnonymous s nowMs params).1 = (s.prune F.config nowMs).1 := by
  unfold admitRequest
  dsimp only
  split
  · exact .inl rfl
  · split
    · right
      simp only [refuseContinuation]
      split
      · next hp => rw [hp]
      · next hp => rw [hp]
    · split
      · exact .inl rfl
      · left
        split
        · split
          · rfl
          · rfl
        · rfl

theorem dispatch_cases (taskId : JsString) (answer : Answer) (uuid : JsString) (nowMs : ℤ) :
    (dispatch F s taskId answer uuid nowMs).1 = s ∨
    (∃ a, s.start F.config taskId a nowMs = some (dispatch F s taskId answer uuid nowMs).1) ∨
    ∃ reason, s.reject F.host F.config taskId reason uuid nowMs =
      some (dispatch F s taskId answer uuid nowMs).1 := by
  unfold dispatch
  split
  · next a hstarted =>
    cases hstart : s.start F.config taskId a nowMs with
    | none => exact .inl rfl
    | some s' => exact .inr (.inl ⟨a, by rw [hstart]; rfl⟩)
  · exact .inl rfl
  · next reason hfailure =>
    split
    · next s' hreject => exact .inr (.inr ⟨reason, hreject⟩)
    · exact .inl rfl

/-- STEP: the invariant holds at the new time. -/
theorem advance_timely (h : Timely F.config y.world y.now) (hstep : advance F y ev = some y') :
    Timely F.config y'.world y'.now := by
  cases ev with
  | arrive params hooks =>
    cases hstep
    exact h
  | admitRequest r allowAnonymous nowMs =>
    simp only [advance] at hstep
    split at hstep
    · next params hooks hr =>
      split at hstep
      · next hnow =>
        cases hstep
        show Timely F.config { y.world with store := (admitRequest F hooks _ y.world.store nowMs params).1 } nowMs
        rcases @admit_store F y.world.store nowMs hooks allowAnonymous params with
          heq | heq
        · rw [heq]
          exact (h.idle hnow).1
        · rw [heq]
          exact h.prune hnow
      · cases hstep
    · cases hstep
  | openTask r o =>
    simp only [advance] at hstep
    split at hstep
    · next a hr =>
      split at hstep
      · next hdue =>
        cases hstep
        exact openTask_timely h rfl rfl hdue.1 hdue.2.1 hdue.2.2
      · cases hstep
    · cases hstep
  | prepare r =>
    simp only [advance] at hstep
    split at hstep
    · cases hstep
      exact h
    · cases hstep
  | dispatch r answer uuid nowMs =>
    simp only [advance] at hstep
    split at hstep
    · next task hr =>
      split at hstep
      · next hnow =>
        cases hstep
        show Timely F.config (y.world.unfresh task.id (dispatch F y.world.store task.id answer uuid
          nowMs).1) nowMs
        rcases dispatch_cases (F := F) (s := y.world.store) task.id answer uuid nowMs with
          heq | ⟨a, heq⟩ | ⟨reason, heq⟩
        · rw [heq]
          have hidle := (h.idle hnow).1
          exact { hidle with }
        · exact h.unfresh (mutates_start heq) hnow task.id
        · exact h.unfresh (mutates_reject heq) hnow task.id
      · cases hstep
    · cases hstep
  | call o =>
    simp only [advance] at hstep
    split at hstep
    · next now world hclock hworld =>
      cases hstep
      by_cases hr : o.Remembers
      · exact (timely_step h hr hclock hworld).1
      · cases o with
        | delete taskId forget =>
          cases hclock
          cases hworld
          exact h.delete taskId forget
        | _ => exact absurd trivial hr
    · cases hstep

theorem run_timely (h : Timely F.config y.world y.now) (hrun : run F y evs = some y') :
    Timely F.config y'.world y'.now := by
  induction evs generalizing y with
  | nil =>
    cases hrun
    exact h
  | cons ev evs ih =>
    obtain ⟨z, hstep, hrest⟩ := Option.bind_eq_some_iff.mp hrun
    exact ih (advance_timely h hstep) hrest

/-! ### Markers that are not there -/

/-- A key without a marker gets none. -/
def Drops (s s' : TaskStore) (k : CorrelationKey) : Prop :=
  Maps.get s.byMessageCorrelation k = none → Maps.get s'.byMessageCorrelation k = none

theorem drops_delete (taskId : JsString) (forget : Bool) : Drops s (s.delete taskId forget) k := by
  intro hnone
  unfold TaskStore.delete
  split
  · exact hnone
  · simp only
    split
    · split
      · exact Maps.get_filter_none hnone
      · exact hnone
    · exact hnone

theorem drops_prune : Drops s (s.prune c nowMs).1 k :=
  prune_induct (fun t => Drops s t k) (fun hnone => Maps.get_filter_none hnone)
    fun _ _ _ hdrops hnone => drops_delete _ _ (hdrops hnone)

theorem drops_touch (taskId : JsString) : Drops s (s.touchReplayMarker c taskId nowMs) k := by
  intro hnone
  unfold TaskStore.touchReplayMarker
  split
  · exact hnone
  · split
    · exact hnone
    · next key _ _ marker hmarker =>
      have hne : key ≠ k := by
        rintro rfl
        rw [hnone] at hmarker
        cases hmarker
      exact (Maps.get_set_ne hne).trans hnone

theorem Mutates.drops {guarded : Prop} (h : Mutates c guarded touched request nowMs s s') :
    Drops s s' k := by
  cases h with
  | idle => exact id
  | update _ _ _ _ _ => exact fun hnone => drops_touch _ hnone

theorem drops_create (hkey : a.key ≠ some k) : Drops s (s.create c a).1 k := by
  intro hnone
  have hpruned := @drops_prune c _ _ a.pruneMs hnone
  have hcases := create_cases (s := s) (c := c) a
  generalize s.create c a = result at hcases ⊢
  cases hcases with
  | refused => exact hpruned
  | plain _ => exact hpruned
  | marked hmarked _ =>
    have hne : _ ≠ k := fun heq => hkey (hmarked.trans (congrArg some heq))
    exact (Maps.get_set_ne hne).trans hpruned

/-- Whoever creates a task at this event, it is not for this key. -/
def Spares (y : System) (k : CorrelationKey) : Event → Prop
  | .openTask r o => ∀ q a, y.requests[r]? = some q → q.phase = .admitted a → (a.args o).key ≠ some k
  | .call (.create a) => a.key ≠ some k
  | _ => True

def SparingRun (F : Facade) (k : CorrelationKey) : System → List Event → Prop
  | _, [] => True
  | y, ev :: evs => Spares y k ev ∧ ∀ y', advance F y ev = some y' → SparingRun F k y' evs

theorem step_drops {o : Op} (hstep : step H c w o = some w')
    (hspares : ∀ a, o = .create a → a.key ≠ some k) : Drops w.store w'.store k := by
  cases o with
  | create a =>
    simp only [step] at hstep
    split at hstep
    · cases hstep
    · cases hstep
      exact drops_create (hspares a rfl)
  | prune nowMs =>
    cases hstep
    exact drops_prune
  | start taskId a nowMs =>
    simp only [step] at hstep
    split at hstep
    · next store hstart =>
      cases hstep
      exact (mutates_start hstart).drops
    · cases hstep
      exact id
  | reject taskId message uuid nowMs =>
    simp only [step] at hstep
    split at hstep
    · next store hreject =>
      cases hstep
      exact (mutates_reject hreject).drops
    · cases hstep
      exact id
  | cancel taskId message uuid nowMs =>
    cases hstep
    exact (mutates_cancel taskId message uuid nowMs).drops
  | completeResult taskId r d =>
    simp only [step] at hstep
    split at hstep
    · next task hget =>
      cases hstep
      exact (mutates_completeResult (fun _ => True) hget trivial r d).drops
    · cases hstep
      exact id
  | completeFromTruynEvent event d =>
    cases hstep
    exact (mutates_completeFromTruynEvent event d).drops
  | recordCompactEvent event d =>
    cases hstep
    exact (mutates_recordCompactEvent event d).drops
  | delete taskId forget =>
    cases hstep
    exact drops_delete taskId forget
  | touchReplayMarker taskId nowMs =>
    cases hstep
    exact drops_touch taskId

theorem drops_openTask {a : Admitted} (hkey : (a.args o).key ≠ some k) :
    Drops v.store (openTask F v a o).1.store k := by
  have hcreate := drops_create (s := v.store) (c := F.config) hkey
  have hcases := openTask_cases (F := F) v a o
  generalize openTask F v a o = result at hcases ⊢
  cases hcases with
  | refused => exact hcreate
  | created hcreated =>
    rw [hcreated] at hcreate
    exact hcreate
  | undone hcreated =>
    rw [hcreated] at hcreate
    exact fun hnone => drops_delete _ true (hcreate hnone)

theorem advance_drops (hstep : advance F y ev = some y') (hspares : Spares y k ev) :
    Drops y.world.store y'.world.store k := by
  cases ev with
  | arrive params hooks =>
    cases hstep
    exact id
  | admitRequest r allowAnonymous nowMs =>
    simp only [advance] at hstep
    split at hstep
    · next params hooks hr =>
      split at hstep
      · cases hstep
        show Drops y.world.store (admitRequest F hooks _ y.world.store nowMs params).1 k
        rcases @admit_store F y.world.store nowMs hooks allowAnonymous params with
          heq | heq
        · rw [heq]
          exact id
        · rw [heq]
          exact drops_prune
      · cases hstep
    · cases hstep
  | openTask r o =>
    simp only [advance] at hstep
    split at hstep
    · next a hr =>
      split at hstep
      · cases hstep
        exact drops_openTask (v := ⟨y.world.store, y.push, y.pushCursorByTaskId⟩) (hspares _ a hr rfl)
      · cases hstep
    · cases hstep
  | prepare r =>
    simp only [advance] at hstep
    split at hstep
    · cases hstep
      exact id
    · cases hstep
  | dispatch r answer uuid nowMs =>
    simp only [advance] at hstep
    split at hstep
    · next task hr =>
      split at hstep
      · cases hstep
        show Drops y.world.store (dispatch F y.world.store task.id answer uuid nowMs).1 k
        rcases dispatch_cases (F := F) (s := y.world.store) task.id answer uuid nowMs with
          heq | ⟨a, heq⟩ | ⟨reason, heq⟩
        · rw [heq]
          exact id
        · exact (mutates_start heq).drops
        · exact (mutates_reject heq).drops
      · cases hstep
    · cases hstep
  | call o =>
    simp only [advance] at hstep
    split at hstep
    · next hclock hworld =>
      cases hstep
      exact step_drops hworld fun a ho => by
        subst ho
        exact hspares
    · cases hstep

theorem run_drops (hrun : run F y evs = some y') (hspares : SparingRun F k y evs) :
    Drops y.world.store y'.world.store k := by
  induction evs generalizing y with
  | nil =>
    cases hrun
    exact id
  | cons ev evs ih =>
    obtain ⟨z, hstep, hrest⟩ := Option.bind_eq_some_iff.mp hrun
    exact fun hnone => ih hrest (hspares.2 z hstep) (advance_drops hstep hspares.1 hnone)

/-! ### Requests that fail -/

def Fails (y : System) (r : ℕ) : Prop := ∃ q e, y.requests[r]? = some q ∧ q.phase = .failed e

/-- The refusal of a push configuration is not by the switch for all of them. -/
def Configurable (F : Facade) (a : Admitted) : Prop :=
  a.pushConfig = none ∨ F.enablePushNotifications = true

/-- After this, who tries again with this key is not taken for a replay, if nobody else had it. -/
def MayRetry (F : Facade) (y : System) (k : CorrelationKey) : Prop :=
  ∀ evs y', run F y evs = some y' → SparingRun F k y evs → ∀ a : CreateArgs, a.key = some k →
    (y'.world.store.create F.config a).2 ≠ .error .messageIdReplay

/-- After this, who tries again with this key before `till` is refused. -/
def Remembered (F : Facade) (y : System) (k : CorrelationKey) (till : ℤ) : Prop :=
  ∀ w now, TimedRuns F.host F.config y.world y.now w now → ∀ a : CreateArgs, a.key = some k →
    now ≤ a.pruneMs → a.pruneMs ≤ till → (w.store.create F.config a).2 = .error .messageIdReplay ∨
      (w.store.create F.config a).2 = .error .taskCapacity

/-- What a request leaves that goes no further. -/
structure Clean (F : Facade) (y : System) : Prop where
  admission (r : ℕ) (allowAnonymous : Bool) (nowMs : ℤ) (y' : System) :
    advance F y (.admitRequest r allowAnonymous nowMs) = some y' →
      (y'.world.store = y.world.store ∨
        y'.world.store = (y.world.store.prune F.config nowMs).1) ∧
      ∀ k, Maps.get y.world.store.byMessageCorrelation k = none → MayRetry F y' k
  opening (r : ℕ) (a : Admitted) (o : Opening) (q : Request) (y' : System) :
    y.requests[r]? = some q → q.phase = .admitted a → Configurable F a →
    advance F y (.openTask r o) = some y' → Fails y' r →
      y'.world.store = (y.world.store.prune F.config o.pruneMs).1 ∧ y'.push = y.push ∧
      y'.pushCursorByTaskId = y.pushCursorByTaskId ∧
      ∀ k, Maps.get y.world.store.byMessageCorrelation k = none → MayRetry F y' k
  dispatching (r : ℕ) (task stored : Task) (q : Request) (answer : Answer) (reason : Value)
      (text uuid : JsString) (nowMs : ℤ) (y' : System) :
    y.requests[r]? = some q → q.phase = .prepared task →
    Maps.get y.world.store.tasks task.id = some stored →
    dispatchFailure F.config y.world.store task.id answer nowMs = some reason →
    F.host.string (orValue (some reason) (.string (js "Task rejected"))) = some text →
    advance F y (.dispatch r answer uuid nowMs) = some y' →
      (∃ rejected, Maps.get y'.world.store.tasks task.id = some rejected ∧
        rejected.status.state = .rejected) ∧
      ∀ k, stored.key = some k → Remembered F y' k (nowMs + F.config.taskTtlMs)

theorem create_free (hkey : a.key = some k) (hfree : Maps.get s.byMessageCorrelation k = none) :
    (s.create c a).2 ≠ .error .messageIdReplay := by
  have hpruned := @drops_prune c _ _ a.pruneMs hfree
  unfold TaskStore.create
  generalize s.prune c a.pruneMs = p at *
  obtain ⟨p, room⟩ := p
  cases room with
  | false =>
    intro h
    cases h
  | true =>
    simp only [hkey]
    rw [if_neg (by rw [hpruned]; exact Bool.false_ne_true)]
    split <;>
    · intro h
      cases h

theorem mayRetry (hfree : Maps.get y.world.store.byMessageCorrelation k = none) : MayRetry F y k :=
  fun _ _ hrun hspares _ hkey => create_free hkey (run_drops hrun hspares hfree)

theorem admission_clean {allowAnonymous : Bool}
    (hstep : advance F y (.admitRequest r allowAnonymous nowMs) = some y') :
    y'.world.store = y.world.store ∨ y'.world.store = (y.world.store.prune F.config nowMs).1 := by
  simp only [advance] at hstep
  split at hstep
  · split at hstep
    · cases hstep
      exact admit_store _ _ _
    · cases hstep
  · cases hstep

theorem opening_clean {a : Admitted} (h : Timely F.config y.world y.now)
    (hr : y.requests[r]? = some q) (hphase : q.phase = .admitted a)
    (hconfigurable : Configurable F a) (hstep : advance F y (.openTask r o) = some y')
    (hfails : Fails y' r) : y'.world.store = (y.world.store.prune F.config o.pruneMs).1 ∧
      y'.push = y.push ∧ y'.pushCursorByTaskId = y.pushCursorByTaskId := by
  obtain ⟨params, hooks, phase⟩ := q
  subst hphase
  simp only [advance, hr] at hstep
  split at hstep
  · next hdue =>
    obtain ⟨hmarked, hnew⟩ := h.created (a := a.args o) hdue.1 hdue.2.2
    cases hstep
    obtain ⟨q', e, hq', hfailed⟩ := hfails
    simp only [System.turn, List.getElem?_modify, if_true, hr, Option.map_eq_map, Option.map_some,
      Option.some.injEq] at hq'
    subst hq'
    have hcases := openTask_cases (F := F) ⟨y.world.store, y.push, y.pushCursorByTaskId⟩ a o
    generalize openTask F ⟨y.world.store, y.push, y.pushCursorByTaskId⟩ a o = result at *
    cases hcases with
    | refused hcreate =>
      exact ⟨create_refused_store hcreate, rfl, rfl⟩
    | created hcreate hswitch =>
      -- the switch is the only reason to fail that leaves the task
      exfalso
      rename_i task v' result
      cases result with
      | ok task => cases hfailed
      | error e' =>
        obtain ⟨hoff, hconfig⟩ := hswitch e' rfl
        rcases hconfigurable with hnone | hon
        · exact hconfig hnone
        · rw [hoff] at hon
          cases hon
    | undone hcreate => exact ⟨delete_created hmarked hnew hcreate, rfl, rfl⟩
  · cases hstep

theorem get_update_self (hid : task.id = t.id) :
    Maps.get (s.update c task nowMs).tasks t.id = some task := by
  have htasks := (tasks_touch (s := s.put task) (c := c) task.id nowMs).1
  rw [TaskStore.update, htasks, TaskStore.put, hid, Maps.get_set_self]

theorem dispatching_clean {stored : Task} {answer : Answer} {reason : Value} {text uuid : JsString}
    (h : Timely F.config y.world y.now) (hr : y.requests[r]? = some q)
    (hphase : q.phase = .prepared task)
    (hstored : Maps.get y.world.store.tasks task.id = some stored)
    (hfailure : dispatchFailure F.config y.world.store task.id answer nowMs = some reason)
    (htext : F.host.string (orValue (some reason) (.string (js "Task rejected"))) = some text)
    (hstep : advance F y (.dispatch r answer uuid nowMs) = some y') :
    ∃ rejected, Maps.get y'.world.store.tasks task.id = some rejected ∧
      rejected.status.state = .rejected ∧ rejected.key = stored.key ∧
      rejected.lastModified = nowMs ∧ y'.now = nowMs := by
  obtain ⟨params, hooks, phase⟩ := q
  subst hphase
  have hid := h.marked.keyed _ _ hstored
  simp only [advance, hr] at hstep
  split at hstep
  · cases hstep
    simp only [dispatch, hfailure, TaskStore.reject, hstored, htext, World.unfresh]
    refine ⟨_, (congrArg _ hid.symm).trans (get_update_self rfl), rfl, rfl, rfl, trivial⟩
  · cases hstep

/-- A task that was just modified is remembered for the TTL. -/
theorem remembered (h : Timely F.config y.world y.now) {id : JsString}
    (hget : Maps.get y.world.store.tasks id = some t) (hkey : t.key = some k) :
    Remembered F y k (t.lastModified + F.config.taskTtlMs) := by
  intro w now hruns a ha hfrom htill
  obtain ⟨h', -, hguards⟩ := timely_run h hruns
  have hguarded : Guarded F.config k t.lastModified y.world.store := by
    refine ⟨h.lasting _ id t k hget le_rfl hkey, fun id' task' hget' hkey' => ?_⟩
    obtain rfl := h.marked.single id id' t task' k hget hget' hkey hkey'
    cases hget.symm.trans hget'
    exact le_rfl
  have hheld := hguards k t.lastModified hguarded (h.past id t hget) (hfrom.trans htill)
  exact create_refused h'.marked hheld ha htill

/-- CLEAN: in every run, a request that is refused before its task is created, or for its push
    configuration, leaves nothing, and may be tried again; one that cannot be dispatched leaves a
    rejected task, and is remembered. -/
theorem creation_clean {start : ℤ} {evs : List Event} (h : run F (System.init start) evs = some y) :
    Clean F y := by
  have htimely := run_timely Timely.init h
  refine ⟨fun r allowAnonymous nowMs y' hstep => ?_, fun r a o q y' hr hphase hconf hstep hfails => ?_,
    fun r task stored q answer reason text uuid nowMs y' hr hphase hstored hfailure htext hstep => ?_⟩
  · refine ⟨admission_clean hstep, fun k hfree => mayRetry ?_⟩
    exact advance_drops hstep (by trivial) hfree
  · obtain ⟨hstore, hpush, hcursor⟩ := opening_clean htimely hr hphase hconf hstep hfails
    refine ⟨hstore, hpush, hcursor, fun k hfree => mayRetry ?_⟩
    rw [hstore]
    exact drops_prune hfree
  · obtain ⟨rejected, hget, hstate, hkey, hmodified, -⟩ :=
      dispatching_clean htimely hr hphase hstored hfailure htext hstep
    refine ⟨⟨rejected, hget, hstate⟩, fun k hk => ?_⟩
    exact hmodified ▸ remembered (advance_timely htimely hstep) hget (hkey.trans hk)

def sampleFacade : Facade where
  host := sampleHost
  config := sampleConfig
  parseUrl _ := none
  enablePushNotifications := true
  maxConfigsPerTask := 8

/-- A user's text for the only skill. -/
def sampleParams (configuration : List (JsString × Value)) : Value :=
  .object [(js "message", .object [(js "role", .string (js "ROLE_USER")),
    (js "messageId", .string (js "m")), (js "parts", .array [.object [(js "text", .string (js "hi"))]])]),
    (js "configuration", .object configuration)]

def sampleHooks : Hooks where
  requestAuth := .ok ⟨.null, some (js "owner")⟩
  visibleSkills _ := .ok [⟨js "skill", js "capability", [js "text/plain"]⟩]
  selectSkill := none
  mapInput _ := none
  buildPolicy := none

def sampleOpening (ms : ℤ) : Opening := ⟨ms, ms, [1], [2], [3]⟩

/-- The relay has no provider. -/
def refusedEvents : List Event := [.arrive (sampleParams []) sampleHooks, .admitRequest 0 false 0,
  .openTask 0 (sampleOpening 0), .prepare 0, .dispatch 0 (.error .null) [4] 0]

theorem refused_creation_clean : ∃ y, run sampleFacade (System.init 0) refusedEvents = some y ∧
    Clean sampleFacade y := by
  obtain ⟨y, hy⟩ := Option.isSome_iff_exists.mp
    (show (run sampleFacade (System.init 0) refusedEvents).isSome = true by decide)
  exact ⟨y, hy, creation_clean hy⟩

def refusal : Except CreateError Task → Option CreateError
  | .error e => some e
  | .ok _ => none

/-- The NEED was never sent, and the message is refused when it comes again. -/
theorem undispatched_remembered : (run sampleFacade (System.init 0) refusedEvents).map (fun y =>
    (refusal (y.world.store.create sampleConfig { sampleCreate with
      ownerKey := some (js "owner")
      message := .object [(js "messageId", .string (js "m"))] }).2,
      (Maps.get y.world.store.byMessageCorrelation (some (js "owner"), js "m")).isSome)) =
    some (some .messageIdReplay, true) := by
  decide

end Truyn.A2a
