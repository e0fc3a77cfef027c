import Truyn.Trust.Claims
import Truyn.Schemes.Maps

/-! accepted:inbox | accepted work in one instance, its calls and its file, between awaits

    A record is an object that the map, a copy and a pending write may share, so records live in
    `objects` and all else has their places. A call rests where the source awaits: for the file, for
    a write, for a handler, for the execution of another call. Writes go out one after the other; when
    one fails, the queue stays failed. `history` says what was recorded, started and settled. -/

namespace Truyn.Accepted
open Trust (Value truthy)

/-- The host's comparison of strings, and `maxCompleted`. -/
structure Host where
  collation : Collation
  maxCompleted : ℕ
  positive : 0 < maxCompleted

inductive Status
  | pending
  | completed
  | failed
  deriving DecidableEq

structure Envelope where
  id : JsString
  body : Value

structure Work where
  id : JsString
  status : Status
  envelope : Envelope
  context : Value
  attempts : ℕ
  acceptedAt : JsString
  updatedAt : JsString
  result : Value
  error : Value

def Work.attempt (now : JsString) (work : Work) : Work :=
  { work with attempts := work.attempts + 1, updatedAt := now }

def Work.complete (result : Value) (now : JsString) (work : Work) : Work :=
  { work with status := .completed, result, error := .null, updatedAt := now }

def Work.fail (error : Value) (now : JsString) (work : Work) : Work :=
  { work with status := .failed, result := .null, error, updatedAt := now }

/-- What the file holds; `none` is an entry that `load` refuses. -/
inductive Content
  | missing
  | invalid
  | entries (l : List (Option Work))

/-- What a call has still to do; `rest` is what `recover` runs next. -/
inductive Call
  | load
  | accept (envelope : Envelope) (context : Value)
  | run (envelope : Envelope) (context : Value) (rest : List (Envelope × Value))
  | runAccept (envelope : Envelope) (context : Value) (rest : List (Envelope × Value))
  | recover

/-- Who has written, and waits for it. -/
inductive Stage
  | accepted (entry : ℕ)
  | marking (id : JsString) (entry : ℕ) (recovered : Bool) (execution : ℕ)
  | completing (id : JsString) (execution : ℕ)
  | failing (id : JsString) (execution : ℕ)

inductive Task
  | loading (call : Call)
  | read (content : Content) (call : Call)
  | loaded (call : Call)
  | returned (copy : ℕ) (call : Call)
  | writing (written : Option Bool) (stage : Stage) (call : Call)
  | handling (id : JsString) (input : Envelope × Value × Bool) (execution : ℕ) (call : Call)
  | joined (execution : ℕ) (call : Call)
  | ended

structure Write where
  task : ℕ
  snapshot : List ℕ

inductive Note
  | recorded (work : Work)
  | started (id : JsString)
  | completed (id : JsString)
  | failed (id : JsString)

/-- `executions` are the promises of `inFlight`, and whether they have settled; `text` is what the
    write at the head of the queue has made of its objects. -/
structure Inbox where
  objects : List Work := []
  entries : List (JsString × ℕ) := []
  inFlight : List (JsString × ℕ) := []
  executions : List Bool := []
  loaded : Bool := false
  file : Content := .missing
  writes : List Write := []
  text : Option Content := none
  broken : Bool := false
  tasks : List Task := []
  history : List Note := []

/-- `now` is what the clock says to the segment that runs. -/
inductive Event
  | callLoad
  | callAccept (envelope : Envelope) (context : Value)
  | callRun (envelope : Envelope) (context : Value)
  | callRecover
  | readFile (task : ℕ)
  | readFails (task : ℕ)
  | resume (task : ℕ) (now : JsString)
  | stringify
  | write (ok : Bool)
  | handled (task : ℕ) (outcome : Except Value Value) (now : JsString)

/-! ### Small operations -/

def Inbox.put (s : Inbox) (t : ℕ) (task : Task) : Inbox := { s with tasks := s.tasks.set t task }

/-- `this.entries.get(id)`. -/
def Inbox.record (s : Inbox) (id : JsString) : Option Work :=
  (Maps.get s.entries id).bind fun entry => s.objects[entry]?

def Inbox.alloc (s : Inbox) (work : Work) : Inbox := { s with objects := s.objects ++ [work] }

/-- `this.entries.set(entry.id, entry)`. -/
def Inbox.add (s : Inbox) (work : Work) : Inbox :=
  { s with
    objects := s.objects ++ [work]
    entries := Maps.set work.id s.objects.length s.entries
    history := .recorded work :: s.history }

def Inbox.update (s : Inbox) (entry : ℕ) (f : Work → Work) : Inbox :=
  { s with objects := s.objects.modify entry f }

/-- `#persist`: the write is queued with the objects that the map has now. -/
def Inbox.persist (s : Inbox) (t : ℕ) (stage : Stage) (call : Call) : Inbox :=
  { s with
    writes := s.writes ++ [⟨t, s.entries.map Prod.snd⟩]
    tasks := s.tasks.set t (.writing none stage call) }

def textAt (field : String) (value : Value) : Option JsString :=
  match value.get field with
  | some (.string s) => some s
  | _ => none

def orNull (s : Option JsString) : Value := (s.map Value.string).getD .null

def safeContext (context : Value) : Value := .object
  [(js "peerNodeId", orNull (textAt "peerNodeId" context)),
    (js "transport", orNull (textAt "transport" context))]

def serializedError (error : Value) : Value := .object
  [(js "code", orNull (textAt "code" error)),
    (js "message", .string ((textAt "message" error).getD (js "durable_work_failed")))]

/-- What a failed write throws. -/
def writeError : Value := .object [(js "code", .string (js "EIO")), (js "message", .string (js "EIO"))]

/-! ### Calls -/

/-- A call, where it awaits `load`. -/
def Inbox.entering (s : Inbox) (call : Call) : Task :=
  if s.loaded then .loaded call else .loading call

def Call.rest : Call → List (Envelope × Value)
  | .run _ _ rest | .runAccept _ _ rest => rest
  | _ => []

/-- A call returns or throws; `recover` goes on with the next one. -/
def finish (s : Inbox) (t : ℕ) (call : Call) : Inbox :=
  match call.rest with
  | [] => s.put t .ended
  | (envelope, context) :: rest => s.put t (s.entering (.run envelope context rest))

/-- The loop of `load`. -/
def readInto (s : Inbox) : List (Option Work) → Inbox × Bool
  | [] => (s, true)
  | none :: _ => (s, false)
  | some work :: rest => readInto (s.add work) rest

def load (s : Inbox) (t : ℕ) (content : Content) (call : Call) : Inbox :=
  let cleared := { s with entries := [] }
  match content with
  | .invalid => finish s t call
  | .missing => { cleared with loaded := true }.put t (.loaded call)
  | .entries l =>
    match readInto cleared l with
    | (s', false) => finish s' t call
    | (s', true) => { s' with loaded := true }.put t (.loaded call)

/-- `accept`, once the file has been read. -/
def accept (s : Inbox) (t : ℕ) (envelope : Envelope) (context : Value) (now : JsString)
    (call : Call) : Inbox :=
  if envelope.id.isEmpty then finish s t call
  else match s.record envelope.id with
    | some existing => (s.alloc existing).put t (.returned s.objects.length call)
    | none =>
      let work : Work := ⟨envelope.id, .pending, envelope, safeContext context, 0, now, now, .null, .null⟩
      (s.add work).persist t (.accepted s.objects.length) call

/-- The start of an execution, up to its first write. -/
def execute (s : Inbox) (t : ℕ) (id : JsString) (entry : ℕ) (recovered : Bool) (now : JsString)
    (call : Call) : Inbox :=
  let execution := s.executions.length
  let s := s.update entry (Work.attempt now)
  { s.persist t (.marking id entry recovered execution) call with
    inFlight := Maps.set id execution s.inFlight
    executions := s.executions ++ [false] }

/-- `run`, once the file has been read. -/
def run (s : Inbox) (t : ℕ) (envelope : Envelope) (context : Value)
    (rest : List (Envelope × Value)) (now : JsString) : Inbox :=
  let call := Call.run envelope context rest
  match (s.record envelope.id).map Work.status with
  | some .completed | some .failed => finish s t call
  | _ =>
    match Maps.get s.inFlight envelope.id, Maps.get s.entries envelope.id with
    | some execution, _ => s.put t (.joined execution call)
    | none, some entry => execute s t envelope.id entry true now call
    | none, none => s.put t (s.entering (.runAccept envelope context rest))

/-- `pending()`. -/
def pending (H : Host) (s : Inbox) : List Work :=
  H.collation.sortBy Work.acceptedAt
    ((s.entries.filterMap fun p => s.objects[p.2]?).filter fun work => work.status = .pending)

def recover (H : Host) (s : Inbox) (t : ℕ) : Inbox :=
  match (pending H s).map fun work => (work.envelope, work.context) with
  | [] => s.put t .ended
  | (envelope, context) :: rest => s.put t (s.entering (.run envelope context rest))

/-! ### Executions -/

/-- `finally`. -/
def release (s : Inbox) (t : ℕ) (id : JsString) (execution : ℕ) (call : Call) : Inbox :=
  finish { s with
    inFlight := Maps.delete id s.inFlight
    executions := s.executions.set execution true } t call

/-- `#trimCompleted`: the records of the longest ago go. -/
def trimCompleted (H : Host) (s : Inbox) : Inbox :=
  let completed := H.collation.sortBy Work.updatedAt
    ((s.entries.filterMap fun p => s.objects[p.2]?).filter fun work => work.status = .completed)
  let old := completed.take (completed.length - H.maxCompleted)
  { s with entries := old.foldl (fun entries work => Maps.delete work.id entries) s.entries }

def failWork (s : Inbox) (t : ℕ) (id : JsString) (execution : ℕ) (error : Value) (now : JsString)
    (call : Call) : Inbox :=
  match Maps.get s.entries id with
  | none => release s t id execution call
  | some entry =>
    let s := s.update entry (Work.fail (serializedError error) now)
    { s with history := .failed id :: s.history }.persist t (.failing id execution) call

def completeWork (H : Host) (s : Inbox) (t : ℕ) (id : JsString) (execution : ℕ) (result : Value)
    (now : JsString) (call : Call) : Inbox :=
  match Maps.get s.entries id with
  | none => release s t id execution call
  | some entry =>
    let s := s.update entry (Work.complete result now)
    (trimCompleted H { s with history := .completed id :: s.history }).persist t
      (.completing id execution) call

/-! ### Steps -/

/-- What a call does when its write is done, or has failed. -/
def settle (s : Inbox) (t : ℕ) (now : JsString) (ok : Bool) (call : Call) : Stage → Inbox
  | .accepted entry =>
    match ok, s.objects[entry]? with
    | true, some work => (s.alloc work).put t (.returned s.objects.length call)
    | _, _ => finish s t call
  | .marking id entry recovered execution =>
    match ok, s.objects[entry]? with
    | true, some work =>
      { s with history := .started id :: s.history }.put t
        (.handling id (work.envelope, work.context, recovered) execution call)
    | _, _ => finish { s with executions := s.executions.set execution true } t call
  | .completing id execution =>
    if ok then release s t id execution call
    else failWork s t id execution writeError now call
  | .failing id execution => release s t id execution call

def resume (H : Host) (s : Inbox) (t : ℕ) (now : JsString) : Task → Option Inbox
  | .read content call => some (load s t content call)
  | .loaded .load => some (s.put t .ended)
  | .loaded (.accept envelope context) =>
    some (accept s t envelope context now (.accept envelope context))
  | .loaded (.run envelope context rest) => some (run s t envelope context rest now)
  | .loaded (.runAccept envelope context rest) =>
    some (accept s t envelope context now (.runAccept envelope context rest))
  | .loaded .recover => some (recover H s t)
  | .returned copy (.runAccept envelope context rest) =>
    some (execute s t envelope.id copy false now (.runAccept envelope context rest))
  | .returned _ _ => some (s.put t .ended)
  | .writing (some ok) stage call => some (settle s t now ok call stage)
  | .joined execution call =>
    if s.executions[execution]? = some true then some (finish s t call) else none
  | _ => none

/-- The write at the head of the queue takes the objects as they are now. -/
def stringify (s : Inbox) : Option Inbox :=
  match s.writes, s.broken with
  | write :: _, false =>
    some { s with text := some (.entries (write.snapshot.map fun entry => s.objects[entry]?)) }
  | _, _ => none

/-- It ends: the file has its text, or is as it was. After a failure no write is tried. -/
def writeNext (s : Inbox) (ok : Bool) : Option Inbox :=
  match s.writes with
  | [] => none
  | write :: rest =>
    let tasks := match s.tasks[write.task]? with
      | some (.writing none stage call) => s.tasks.set write.task (.writing (some ok) stage call)
      | _ => s.tasks
    match ok, s.text with
    | true, some text => some { s with writes := rest, text := none, file := text, tasks }
    | true, none => none
    | false, _ => some { s with writes := rest, text := none, broken := true, tasks }

def Inbox.call (s : Inbox) (call : Call) : Inbox := { s with tasks := s.tasks ++ [s.entering call] }

def step (H : Host) (s : Inbox) : Event → Option Inbox
  | .callLoad => some (s.call .load)
  | .callAccept envelope context => some (s.call (.accept envelope context))
  | .callRun envelope context => some (s.call (.run envelope context []))
  | .callRecover => some (s.call .recover)
  | .readFile t =>
    match s.tasks[t]? with
    | some (.loading call) => some (s.put t (.read s.file call))
    | _ => none
  | .readFails t =>
    match s.tasks[t]? with
    | some (.loading call) => some (finish s t call)
    | _ => none
  | .resume t now => s.tasks[t]?.bind (resume H s t now)
  | .stringify => stringify s
  | .write ok => writeNext s ok
  | .handled t outcome now =>
    match s.tasks[t]?, outcome with
    | some (.handling id _ execution call), .ok result =>
      some (completeWork H s t id execution result now call)
    | some (.handling id _ execution call), .error error =>
      some (failWork s t id execution error now call)
    | _, _ => none

end Truyn.Accepted
