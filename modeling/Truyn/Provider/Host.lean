import Truyn.Provider.Execute
import Truyn.Schemes.Maps

/-! provider:host | NEEDs are started, wait, are revoked, and wait again after a stop

    The host holds its executions in flight by NEED, NEEDs that wait, and the last revocations. An
    execution goes on whenever one of its answers is there, also after `stop` has given up on it. The
    one-shot `runOnce` runs executions that the host does not hold. -/

namespace Truyn.Provider
open Fences

/-- Where an execution is; `ended` is before its `finally`. -/
inductive Stage
  | asking (a : Asked) (next : Answers → Program)
  | ended
  | closed

/-- An execution; `tracked` tells it from those of `runOnce`. -/
structure Task where
  need : Need
  tracked : Bool
  aborted : Bool
  stage : Stage

/-- A `stop` that waits for the executions that it has aborted. -/
structure Stop where
  states : List ℕ
  preserveDequeuedWork : Bool

/-- The host, all executions in the order of their start, and what was asked for and for whom. -/
structure State where
  running : Bool
  inFlight : List (NeedId × ℕ)
  cancelledNeedIds : List (NeedId × NodeId)
  pendingNeeds : List Need
  pendingNeedIds : List NeedId
  tasks : List Task
  stops : List Stop
  log : List (Need × Asked)

def State.initial : State := ⟨false, [], [], [], [], [], [], []⟩

/-- A REVOKE event; a `targetId` that is falsy is empty. -/
structure Revocation where
  verified : Bool
  targetId : NeedId
  targetKind : Option JsString
  from_ : NodeId

def cancellationFromEvent (r : Revocation) : Option (NeedId × NodeId) :=
  if !r.verified then none
  else if r.targetId = [] ∨ r.targetKind.any (fun kind => kind ≠ [] ∧ kind ≠ js "need") then none
  else some (r.targetId, r.from_)

variable (h : Settings)

/-! ### Executions -/

/-- Execution `k` goes on with `p`, up to what it asks for next. -/
def State.proceed (s : State) (k : ℕ) (t : Task) (p : Program) : State :=
  match p.go t.aborted with
  | some (a, next) => { s with
      tasks := s.tasks.set k { t with stage := .asking a next }, log := s.log ++ [(t.need, a)] }
  | none => { s with
      tasks := s.tasks.set k { t with stage := if t.tracked then .ended else .closed } }

def startNeed (n : Need) (s : State) : State :=
  { s with
    tasks := s.tasks ++ [⟨n, true, false, .asking .turn fun _ => executeNeed h n⟩]
    inFlight := Maps.set n.id s.tasks.length s.inFlight }

def enqueueNeed (n : Need) (s : State) : State :=
  { s with
    pendingNeeds := s.pendingNeeds ++ [n]
    pendingNeedIds := n.id :: s.pendingNeedIds.filter (· ≠ n.id) }

def rejectNeedOverCapacity (n : Need) (s : State) : State :=
  let metadata : Metadata :=
    { error := some (js "PROVIDER_BUSY"), errorClass := some (js "capacity"), chainStage := n.stage
      failed := true }
  { s with log := s.log ++ [(n, .sendTerminal none metadata)] }

def drainFrom : List Need → State → State
  | [], s => { s with pendingNeeds := [] }
  | n :: rest, s =>
    if s.running ∧ s.inFlight.length < h.maxConcurrentExecutions then
      let s := { s with pendingNeedIds := s.pendingNeedIds.filter (· ≠ n.id) }
      if Maps.get s.cancelledNeedIds n.id = some n.from_ then drainFrom rest s
      else drainFrom rest (startNeed h n s)
    else { s with pendingNeeds := n :: rest }

def drainPendingNeeds (s : State) : State := drainFrom h s.pendingNeeds s

def scheduleNeed (n : Need) (s : State) : State :=
  if n.id = [] then s
  else if (Maps.get s.inFlight n.id).isSome then s
  else if n.id ∈ s.pendingNeedIds then s
  else if Maps.get s.cancelledNeedIds n.id = some n.from_ then s
  else if s.inFlight.length < h.maxConcurrentExecutions then startNeed h n s
  else if s.pendingNeeds.length < h.maxPendingExecutions then enqueueNeed n s
  else rejectNeedOverCapacity n s

/-! ### Revocations -/

/-- The oldest are forgotten while there are too many. -/
def evict (max : ℕ) : List (NeedId × NodeId) → List (NeedId × NodeId)
  | [] => []
  | e :: es => if max < es.length + 1 then evict max es else e :: es

def rememberCancellation (id : NeedId) (requester : NodeId) (s : State) : State :=
  let kept := Maps.delete id s.cancelledNeedIds
  { s with cancelledNeedIds := evict h.maxCancellationTombstones (kept ++ [(id, requester)]) }

/-- Whether a NEED is the one that is revoked. -/
def Need.isOf (n : Need) (id : NeedId) (requester : NodeId) : Bool :=
  n.id = id ∧ n.from_ = requester

def cancelPendingNeed (id : NeedId) (requester : NodeId) (s : State) : Option State :=
  if s.pendingNeeds.any fun n => n.isOf id requester then
    some { s with
      pendingNeeds := s.pendingNeeds.eraseP fun n => n.isOf id requester
      pendingNeedIds := s.pendingNeedIds.filter (· ≠ id) }
  else none

def State.abort (s : State) (k : ℕ) : State :=
  { s with tasks := s.tasks.modify k fun t => { t with aborted := true } }

def revoke (id : NeedId) (requester : NodeId) (s : State) : State :=
  let s := rememberCancellation h id requester s
  match cancelPendingNeed id requester s with
  | some s => s
  | none =>
    match Maps.get s.inFlight id with
    | none => s
    | some k =>
      if s.tasks[k]?.any fun t => !t.aborted && t.need.from_ = requester then s.abort k else s

/-! ### Stopping -/

def stop (preserveDequeuedWork : Bool) (s : State) : State :=
  let states := s.inFlight.map Prod.snd
  let s := { states.foldl State.abort s with
    running := false, stops := s.stops ++ [⟨states, preserveDequeuedWork⟩] }
  if preserveDequeuedWork then s else { s with pendingNeeds := [], pendingNeedIds := [] }

/-- The host lets go of an execution, if it still holds it. -/
def release (k : ℕ) (s : State) : State :=
  match s.tasks[k]? with
  | none => s
  | some t =>
    if Maps.get s.inFlight t.need.id = some k then
      { s with inFlight := Maps.delete t.need.id s.inFlight }
    else s

/-- The NEED of an interrupted execution waits again. -/
def requeue (k : ℕ) (s : State) : State :=
  match s.tasks[k]? with
  | none => s
  | some t =>
    if Maps.get s.cancelledNeedIds t.need.id = some t.need.from_ ∨
        (Maps.get s.inFlight t.need.id).isSome ∨ t.need.id ∈ s.pendingNeedIds then s
    else enqueueNeed t.need s

/-- The end of a `stop`, after the executions have settled (`drained`) or took too long. -/
def stopped (d : Stop) (drained : Bool) (s : State) : State :=
  let s := if drained then s else d.states.foldl (fun s k => release k s) s
  if d.preserveDequeuedWork then d.states.foldl (fun s k => requeue k s) s else s

/-! ### Runs -/

inductive Event
  | start
  /-- The poll loop fails. -/
  | loopError
  | need (n : Need)
  | revoke (r : Revocation)
  | runOnce (n : Need)
  /-- What execution `k` awaits is there. -/
  | resume (k : ℕ) (w : Answers)
  /-- The `finally` of execution `k`. -/
  | settled (k : ℕ)
  | stop (preserveDequeuedWork : Bool)
  | stopped (i : ℕ) (drained : Bool)

def step (s : State) : Event → State
  | .start => drainPendingNeeds h { s with running := true }
  | .loopError => { s with running := false }
  | .need n => scheduleNeed h n s
  | .revoke r =>
    match cancellationFromEvent r with
    | none => s
    | some (id, requester) => revoke h id requester s
  | .runOnce n =>
    let t : Task := ⟨n, false, false, .closed⟩
    { s with tasks := s.tasks ++ [t] }.proceed s.tasks.length t (executeNeed h n)
  | .resume k w =>
    match s.tasks[k]? with
    | some t =>
      match t.stage with
      | .asking _ next => s.proceed k t (next w)
      | _ => s
    | none => s
  | .settled k =>
    match s.tasks[k]? with
    | some t =>
      match t.stage with
      | .ended =>
        drainPendingNeeds h (release k { s with tasks := s.tasks.set k { t with stage := .closed } })
      | _ => s
    | none => s
  | .stop preserve => stop preserve s
  | .stopped i drained =>
    match s.stops[i]? with
    | some d => stopped d drained { s with stops := s.stops.eraseIdx i }
    | none => s

def run (es : List Event) (s : State) : State := es.foldl (step h) s

end Truyn.Provider
