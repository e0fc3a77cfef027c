import Truyn.Schemes.Along

/-! store:durable-json | a JSON file that processes change one after the other, under a lock file

    `transaction` takes the lock file, reads, computes, writes and gives the lock back. Processes share
    the file system, and each of its calls is one step; between two steps of a process any other may
    step, and a process may crash. A lock file that is old and whose process is gone is unlinked. -/

namespace Truyn.Store

variable {β : Type}

/-- The stored object: the two members that a transaction sets, and the rest. A `revision` that is no
    integer from 0 on is `none`. -/
structure State (β : Type) where
  revision : Option ℕ
  updatedAt : Option ℕ
  body : β
  deriving DecidableEq

/-- `Number.MAX_SAFE_INTEGER` -/
def maxSafeInteger : ℕ := 9007199254740991

def State.currentRevision (s : State β) : ℕ :=
  match s.revision with
  | some r => if r ≤ maxSafeInteger then r else 0
  | none => 0

/-- One transaction that was written: `mutator` gives nothing when it throws. -/
structure Change (β : Type) where
  mutator : State β → Option (State β)
  now : ℕ

/-- What a transaction persists. -/
def Change.draft (t : Change β) (current : State β) : Option (State β) :=
  (t.mutator current).map fun draft =>
    { draft with revision := some (current.currentRevision + 1), updatedAt := some t.now }

def Change.apply (current : State β) (t : Change β) : State β := (t.draft current).getD current

structure LockRecord where
  pid : ℕ
  owner : ℕ

/-- A lock file; its record is missing until it is written. `id` and `creator` are not in the file. -/
structure LockFile where
  id : ℕ
  creator : ℕ
  record : Option LockRecord
  mtimeMs : ℕ

/-- Where a process goes on. `f` is the lock file it has made. -/
inductive Place (β : Type)
  | idle
  /-- `openSync(lockPath, 'wx')` -/
  | opening (mutator : State β → Option (State β)) (owner startedAt : ℕ)
  /-- `statSync(lockPath)` -/
  | stating (mutator : State β → Option (State β)) (owner startedAt : ℕ)
  /-- `readLockRecord()` of a lock file that is old -/
  | reading (mutator : State β → Option (State β)) (owner startedAt : ℕ)
  /-- `processAlive(record.pid)` -/
  | judging (mutator : State β → Option (State β)) (owner startedAt pid : ℕ)
  /-- `unlinkSync(lockPath)` of a lock file that is stale -/
  | unlinking (mutator : State β → Option (State β)) (owner startedAt : ℕ)
  /-- the timeout, or a pause -/
  | waiting (mutator : State β → Option (State β)) (owner startedAt : ℕ)
  /-- `writeFileSync(fd, …)` -/
  | writing (mutator : State β → Option (State β)) (owner f : ℕ)
  /-- `readUnlocked()` -/
  | entered (mutator : State β → Option (State β)) (owner f : ℕ)
  /-- the mutator and `persistUnlocked` -/
  | computing (mutator : State β → Option (State β)) (owner f : ℕ) (current : State β)
  /-- `readLockRecord()` of `releaseLock`; `written` numbers what the transaction has written -/
  | releasing (owner f : ℕ) (written : Option ℕ)
  /-- `unlinkSync(lockPath)` of `releaseLock` -/
  | removing (f : ℕ) (written : Option ℕ)

structure Process (β : Type) where
  pid : ℕ
  alive : Bool
  place : Place β

/-- What the environment answers: whether some other process has the pid, and whether a call fails
    (with `persisted`, after the file was renamed). -/
structure Answer where
  now : ℕ
  alive : Bool
  fails : Bool
  persisted : Bool

inductive Event (β : Type)
  | spawn (pid : ℕ)
  | crash (i : ℕ)
  | transaction (i : ℕ) (mutator : State β → Option (State β)) (owner now : ℕ)
  | step (i : ℕ) (a : Answer)

structure Config (β : Type) where
  defaultState : State β
  lockTimeoutMs : ℕ
  staleLockMs : ℕ
  timeout_pos : 1 ≤ lockTimeoutMs
  stale_le : lockTimeoutMs ≤ staleLockMs

/-- The file system and the processes; `written` are the transactions whose file was renamed, in
    order, and `resolved` the numbers of those that have returned to their caller. -/
structure World (β : Type) where
  file : Option (State β)
  lock : Option LockFile
  files : ℕ
  processes : List (Process β)
  written : List (Change β)
  resolved : List ℕ

namespace World

variable (cfg : Config β) (w : World β)

def start : World β := ⟨none, none, 0, [], [], []⟩

/-- `readUnlocked` -/
def read : State β := w.file.getD cfg.defaultState

/-- `processAlive`: some process has the pid. -/
def processAlive (pid : ℕ) (a : Answer) : Bool :=
  0 < pid && ((w.processes.any fun p => p.alive && p.pid = pid) || a.alive)

def go (i : ℕ) (p : Process β) (place : Place β) : World β :=
  { w with processes := w.processes.set i { p with place := place } }

/-- The end of a transaction; it resolves if it has written and nothing has failed. -/
def finish (i : ℕ) (p : Process β) (written : Option ℕ) : World β :=
  { w.go i p .idle with resolved := w.resolved ++ written.toList }

/-- One call of process `i`, which is `p`. -/
def call (i : ℕ) (p : Process β) (a : Answer) : World β :=
  match p.place with
  | .idle => w
  | .opening m owner startedAt =>
    if a.fails then w.go i p .idle
    else
      match w.lock with
      | none =>
        { w.go i p (.writing m owner w.files) with
          lock := some ⟨w.files, i, none, a.now⟩
          files := w.files + 1 }
      | some _ => w.go i p (.stating m owner startedAt)
  | .stating m owner startedAt =>
    if a.fails then w.go i p .idle
    else
      match w.lock with
      | none => w.go i p (.opening m owner startedAt)
      | some f =>
        if cfg.staleLockMs ≤ a.now - f.mtimeMs then w.go i p (.reading m owner startedAt)
        else w.go i p (.waiting m owner startedAt)
  | .reading m owner startedAt =>
    match w.lock.bind LockFile.record with
    | none => w.go i p (.unlinking m owner startedAt)
    | some r => w.go i p (.judging m owner startedAt r.pid)
  | .judging m owner startedAt pid =>
    if w.processAlive pid a then w.go i p (.waiting m owner startedAt)
    else w.go i p (.unlinking m owner startedAt)
  | .unlinking m owner startedAt =>
    if a.fails then w.go i p .idle
    else { w.go i p (.opening m owner startedAt) with lock := none }
  | .waiting m owner startedAt =>
    if cfg.lockTimeoutMs ≤ a.now - startedAt then w.go i p .idle
    else w.go i p (.opening m owner startedAt)
  | .writing m owner f =>
    if a.fails then w.go i p .idle
    else
      { w.go i p (.entered m owner f) with
        lock := w.lock.map fun l =>
          if l.id = f then { l with record := some ⟨p.pid, owner⟩, mtimeMs := a.now } else l }
  | .entered m owner f => w.go i p (.computing m owner f (w.read cfg))
  | .computing m owner f current =>
    let t : Change β := ⟨m, a.now⟩
    match t.draft current with
    | none => w.go i p (.releasing owner f none)
    | some draft =>
      if a.fails ∧ ¬a.persisted then w.go i p (.releasing owner f none)
      else
        { w.go i p (.releasing owner f (if a.fails then none else some w.written.length)) with
          file := some draft
          written := w.written ++ [t] }
  | .releasing owner f written =>
    match w.lock.bind LockFile.record with
    | none => w.finish i p written
    | some r => if r.owner = owner then w.go i p (.removing f written) else w.finish i p written
  | .removing _ written =>
    if a.fails then w.go i p .idle else { w.finish i p written with lock := none }

def step : Event β → World β
  | .spawn pid => if 0 < pid then { w with processes := w.processes ++ [⟨pid, true, .idle⟩] } else w
  | .crash i =>
    match w.processes[i]? with
    | some p => { w with processes := w.processes.set i { p with alive := false } }
    | none => w
  | .transaction i m owner now =>
    match w.processes[i]? with
    | some p =>
      match p.place with
      | .idle => if p.alive then w.go i p (.opening m owner now) else w
      | _ => w
    | none => w
  | .step i a =>
    match w.processes[i]? with
    | some p => if p.alive then w.call cfg i p a else w
    | none => w

end World

def run (cfg : Config β) (es : List (Event β)) : World β := es.foldl (World.step cfg) .start

end Truyn.Store
