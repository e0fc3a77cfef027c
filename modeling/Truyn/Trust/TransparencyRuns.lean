import Truyn.Trust.Transparency

/-! trust:transparency-runs | a log and its calls, between awaits

    Calls of `open`, `append`, `ingest` and `syncWithPeer` are tasks that rest where the source awaits:
    for the file, for a write, for a peer. What runs between two awaits is one step. An entry is
    pushed in the step before its write begins. -/

namespace Truyn.Trust
open Relation

/-- A line of the file; a write may leave out its newline, or more of it. -/
inductive Line
  | whole (entry : Value)
  | unended (entry : Value)
  | torn

/-- How much of a line a write puts down. -/
inductive Extent
  | all
  | text
  | part

def Extent.line (entry : Value) : Extent → Line
  | .all => .whole entry
  | .text => .unended entry
  | .part => .torn

/-- Who has called `ingest`. -/
inductive After
  | ingest
  | append (entry : Value)
  | pull (headHash : Option Value)

inductive Task
  | opening (next : Option AppendRequest)
  | read (content : List Line) (next : Option AppendRequest)
  | loaded (next : Option AppendRequest)
  | ready (next : Option AppendRequest)
  | persisting (entry : Value) (written : Bool) (rest : List Value) (after : After)
  | broken (written : Bool)
  | returning (after : After)
  | asking
  | pulling
  | pushing (headHash : JsString)
  | failed (reason : Value)
  | done

/-- `appended` are the entries that `append` has returned. -/
structure LogState where
  entries : List Value := []
  opened : Bool := false
  file : List Line := []
  tasks : List Task := []
  appended : List Value := []

inductive Event
  | callOpen
  | callAppend (request : AppendRequest)
  | callIngest (entries : Option Value)
  | callSync
  | readFile (task : ℕ)
  | resume (task : ℕ)
  | write (task : ℕ) (extent : Extent)
  | settle (task : ℕ)
  | fail (task : ℕ)
  | answer (task : ℕ) (response : Option Value)

def LogState.put (s : LogState) (t : ℕ) (task : Task) : LogState :=
  { s with tasks := s.tasks.set t task }

def failure (reason : String) : Task := .failed (.string (js reason))

/-! ### The loop of ingest -/

variable (H : LogHost) (log : Log)

/-- `return this.head()`. -/
def finish (s : LogState) (t : ℕ) (after : After) : LogState :=
  match head H log s.entries with
  | .error reason => s.put t (failure reason)
  | .ok _ => s.put t (.returning after)

/-- The loop, until it awaits a write. -/
def proceed (s : LogState) (t : ℕ) (after : After) : List Value → LogState
  | [] => finish H log s t after
  | entry :: rest =>
    match examine H log s.entries entry with
    | .error reason => s.put t (failure reason)
    | .ok false => proceed s t after rest
    | .ok true =>
      { s with
        entries := s.entries ++ [entry]
        tasks := s.tasks.set t (.persisting entry false rest after) }

def ingest (s : LogState) (t : ℕ) (after : After) : Option Value → LogState
  | some (.array entries) => proceed H log s t after entries
  | _ => s.put t (failure "transparency entries must be an array")

/-- `append`, once the log is open. -/
def append (s : LogState) (t : ℕ) (request : AppendRequest) : LogState :=
  match newEntry H log s.entries request with
  | .error reason => s.put t (failure reason)
  | .ok entry => proceed H log s t (.append entry) [entry]

/-! ### open -/

/-- `content.split('\n').filter(Boolean).map((line) => JSON.parse(line))`. -/
def parse : List Line → Option (List Value)
  | [] => some []
  | [.unended entry] => some [entry]
  | .whole entry :: rest => (parse rest).map (entry :: ·)
  | _ => none

/-- `this._entries = []; await this.ingest(parsed, { persist: false })`. -/
def reload (parsed : List Value) : List Value × Except String Head :=
  match ingestAll H log [] parsed with
  | (entries, .error reason) => (entries, .error reason)
  | (entries, .ok _) => (entries, head H log entries)

def load (s : LogState) (t : ℕ) (content : List Line) (next : Option AppendRequest) : LogState :=
  if content.isEmpty then { s with opened := true, tasks := s.tasks.set t (.ready next) }
  else
    match parse content with
    | none => s.put t (failure "Unexpected end of JSON input")
    | some parsed =>
      match reload H log parsed with
      | (entries, .error reason) => { s with entries, tasks := s.tasks.set t (failure reason) }
      | (entries, .ok _) => { s with entries, tasks := s.tasks.set t (.loaded next) }

/-- `DurableTransparencyLog.open` on the file, by a new log. -/
def reopen (file : List Line) : Except String (List Value) :=
  if file.isEmpty then .ok []
  else
    match parse file with
    | none => .error "Unexpected end of JSON input"
    | some parsed => (reload H log parsed).2.map fun _ => (reload H log parsed).1

/-! ### syncWithPeer -/

/-- `value || []`. -/
def orEmpty (value : Option Value) : Option Value :=
  if truthy value then value else some (.array [])

/-- `response?.error || text`. -/
def errorOf (response : Option Value) (text : String) : Value :=
  let error := response.bind (Value.get "error")
  if truthy error then error.getD .null else .string (js text)

/-- `response.head?.headHash`. -/
def responseHead (response : Option Value) : Option Value :=
  (response.bind (Value.get "head")).bind (Value.get "headHash")

/-- The answer to HEAD: what the peer says of its head is compared with the log's. -/
def compareHeads (s : LogState) (t : ℕ) (response : Option Value) : LogState :=
  let remote := response.bind (Value.get "head")
  if !truthy (response.bind (Value.get "ok")) ∨ !truthy remote then
    s.put t (.failed (errorOf response "transparency_peer_head_failed"))
  else
    let sequence := remote.bind (Value.get "sequence")
    match head H log s.entries with
    | .error reason => s.put t (failure reason)
    | .ok here =>
      if strictEq sequence (some (.number here.sequence)) ∧
          !strictEq (remote.bind (Value.get "headHash")) (some (.string here.headHash)) then
        s.put t (failure "transparency_fork_detected")
      else match H.toNumber sequence with
        | none => s.put t .done
        | some n =>
          if here.sequence < n then s.put t .pulling
          else if n < here.sequence then s.put t (.pushing here.headHash)
          else s.put t .done

def answer (s : LogState) (t : ℕ) (response : Option Value) : Task → Option LogState
  | .asking => some (compareHeads H log s t response)
  | .pulling =>
    if !truthy (response.bind (Value.get "ok")) then
      some (s.put t (.failed (errorOf response "transparency_pull_failed")))
    else some (ingest H log s t (.pull (responseHead response))
      (orEmpty (response.bind (Value.get "entries"))))
  | .pushing headHash =>
    if !truthy (response.bind (Value.get "ok")) then
      some (s.put t (.failed (errorOf response "transparency_push_failed")))
    else if !strictEq (responseHead response) (some (.string headHash)) then
      some (s.put t (failure "transparency_push_head_mismatch"))
    else some (s.put t .done)
  | _ => none

/-! ### Steps -/

/-- What a task does when what it awaits has come without a value. -/
def resume (s : LogState) (t : ℕ) : Task → Option LogState
  | .read content next => some (load H log s t content next)
  | .loaded next => some { s with opened := true, tasks := s.tasks.set t (.ready next) }
  | .ready none => some (s.put t .done)
  | .ready (some request) => some (append H log s t request)
  | .returning .ingest => some (s.put t .done)
  | .returning (.append entry) =>
    some { s with tasks := s.tasks.set t .done, appended := s.appended ++ [entry] }
  | .returning (.pull headHash) =>
    match head H log s.entries with
    | .error reason => some (s.put t (failure reason))
    | .ok here =>
      if !strictEq headHash (some (.string here.headHash)) then
        some (s.put t (failure "transparency_pull_head_mismatch"))
      else some (s.put t .done)
  | _ => none

/-- The write, the read or the request of a task fails. -/
def fail (s : LogState) (t : ℕ) : Task → Option LogState
  | .opening _ => some (s.put t (failure "EIO"))
  | .persisting _ written _ _ => some (s.put t (.broken written))
  | .asking | .pulling | .pushing _ => some (s.put t (failure "request failed"))
  | _ => none

/-- The state with one more task. -/
def LogState.call (s : LogState) (task : Task) : LogState := { s with tasks := s.tasks ++ [task] }

def step (s : LogState) : Event → Option LogState
  | .callOpen => some (s.call (if s.opened then .done else .opening none))
  | .callAppend request =>
    if s.opened then some (append H log (s.call .done) s.tasks.length request)
    else some (s.call (.opening (some request)))
  | .callIngest entries => some (ingest H log (s.call .done) s.tasks.length .ingest entries)
  | .callSync => some (s.call .asking)
  | .readFile t =>
    match s.tasks[t]? with
    | some (.opening next) => some (s.put t (.read s.file next))
    | _ => none
  | .resume t => s.tasks[t]?.bind (resume H log s t)
  | .write t extent =>
    match s.tasks[t]? with
    | some (.persisting entry false rest after) =>
      some { s with
        file := s.file ++ [extent.line entry]
        tasks := s.tasks.set t (.persisting entry true rest after) }
    | _ => none
  | .settle t =>
    match s.tasks[t]? with
    | some (.persisting _ true rest after) => some (proceed H log s t after rest)
    | _ => none
  | .fail t => s.tasks[t]?.bind (fail s t)
  | .answer t response => s.tasks[t]?.bind (answer H log s t response)

/-! ### What a step does -/

variable {H log}
variable {s s' : LogState} {t : ℕ} {task : Task} {after : After}

/-- A task of `open` that will replace the entries. -/
def Task.loading : Task → Bool
  | .opening _ | .read _ _ => true
  | _ => false

/-- A task whose entry the file does not hold. -/
def Task.unwritten : Task → Bool
  | .persisting _ false _ _ | .broken false => true
  | _ => false

/-- A task that waits for a peer, or has nothing left to store. -/
def Task.inert : Task → Bool
  | .broken _ | .asking | .pulling | .pushing _ | .failed _ | .done => true
  | .returning .ingest | .returning (.pull _) => true
  | _ => false

def After.appends : After → Bool
  | .append _ => true
  | _ => false

theorem Task.loading_of_inert (h : task.inert = true) : task.loading = false := by
  cases task <;> simp_all [inert, loading]

/-- The loop stops for good, or it pushes an entry and waits for its write. -/
inductive Proceeds (H : LogHost) (log : Log) (s : LogState) (t : ℕ) (after : After) :
    LogState → Prop
  | failed (reason : Value) : Proceeds H log s t after (s.put t (.failed reason))
  | returning : Proceeds H log s t after (s.put t (.returning after))
  | pushed (entry : Value) (rest : List Value) : examine H log s.entries entry = .ok true →
      Proceeds H log s t after
        { s with
          entries := s.entries ++ [entry]
          tasks := s.tasks.set t (.persisting entry false rest after) }

theorem proceeds (es : List Value) (after : After) :
    Proceeds H log s t after (proceed H log s t after es) := by
  induction es with
  | nil =>
    rw [proceed, finish]
    cases head H log s.entries with
    | error reason => exact .failed _
    | ok h => exact .returning
  | cons e es ih =>
    rw [proceed]
    cases hx : examine H log s.entries e with
    | error reason => exact .failed _
    | ok push =>
      cases push with
      | true => exact .pushed e es hx
      | false => exact ih

theorem ingest_proceeds (after : After) (value : Option Value) :
    Proceeds H log s t after (ingest H log s t after value) := by
  unfold ingest
  split
  · exact proceeds _ _
  · exact .failed _

theorem append_proceeds (H : LogHost) (log : Log) (s : LogState) (t : ℕ)
    (request : AppendRequest) :
    ∃ entry, Proceeds H log s t (.append entry) (append H log s t request) := by
  unfold append
  cases hn : newEntry H log s.entries request with
  | error reason => exact ⟨.null, .failed _⟩
  | ok entry => exact ⟨entry, proceeds _ _⟩

theorem compareHeads_inert (H : LogHost) (log : Log) (s : LogState) (t : ℕ)
    (response : Option Value) :
    ∃ task, task.inert = true ∧ compareHeads H log s t response = s.put t task := by
  unfold compareHeads
  dsimp only
  split
  · exact ⟨_, rfl, rfl⟩
  split
  · exact ⟨_, rfl, rfl⟩
  split
  · exact ⟨_, rfl, rfl⟩
  split
  · exact ⟨_, rfl, rfl⟩
  split
  · exact ⟨_, rfl, rfl⟩
  split
  · exact ⟨_, rfl, rfl⟩
  · exact ⟨_, rfl, rfl⟩

/-- An answer changes the task, or brings entries to the loop. -/
theorem answer_cases {response : Option Value} (h : answer H log s t response task = some s') :
    (task.unwritten = false ∧ ∃ task', task'.inert = true ∧ s' = s.put t task') ∨
      task = .pulling ∧ ∃ headHash, s' = ingest H log s t (.pull headHash)
        (orEmpty (response.bind (Value.get "entries"))) := by
  cases task with
  | asking =>
    obtain ⟨task', hinert, heq⟩ := compareHeads_inert H log s t response
    exact .inl ⟨rfl, task', hinert, (Option.some.inj h).symm.trans heq⟩
  | pulling =>
    simp only [answer] at h
    split at h
    · exact .inl ⟨rfl, _, rfl, (Option.some.inj h).symm⟩
    · exact .inr ⟨rfl, _, (Option.some.inj h).symm⟩
  | pushing headHash =>
    simp only [answer] at h
    split at h
    · exact .inl ⟨rfl, _, rfl, (Option.some.inj h).symm⟩
    split at h
    · exact .inl ⟨rfl, _, rfl, (Option.some.inj h).symm⟩
    · exact .inl ⟨rfl, _, rfl, (Option.some.inj h).symm⟩
  | _ => cases h

/-- Where the loop starts: at the task of a new call, or at one that was there. -/
structure Starts (s s₁ : LogState) (t : ℕ) : Prop where
  state : s₁ = s ∨ s₁ = s.call .done
  task : ∃ task, s₁.tasks[t]? = some task ∧ task.unwritten = false

theorem Starts.called (s : LogState) : Starts s (s.call .done) s.tasks.length :=
  ⟨.inr rfl, .done, by simp [LogState.call], rfl⟩

theorem Starts.here (h : s.tasks[t]? = some task) (hw : task.unwritten = false) : Starts s s t :=
  ⟨.inl rfl, task, h, hw⟩

/-- The entries that an event brings to the loop. -/
def Brings (s : LogState) : Event → Option Value → Prop
  | .callIngest entries, value => value = entries
  | .answer t response, value =>
    s.tasks[t]? = some .pulling ∧ value = orEmpty (response.bind (Value.get "entries"))
  | _, _ => False

inductive Moves (H : LogHost) (log : Log) (s : LogState) : Event → LogState → Prop
  | called {ev : Event} {task : Task} :
      task = .done ∨ task = .asking ∨ s.opened = false ∧ (∃ next, task = .opening next) →
      Moves H log s ev (s.call task)
  | rested {ev : Event} {t : ℕ} {task task' : Task} : s.tasks[t]? = some task →
      task'.inert = true → (task.unwritten = true → task' = .broken false) →
      Moves H log s ev (s.put t task')
  | read {t : ℕ} {next : Option AppendRequest} : s.tasks[t]? = some (.opening next) →
      Moves H log s (.readFile t) (s.put t (.read s.file next))
  | load {t : ℕ} {content : List Line} {next : Option AppendRequest} :
      s.tasks[t]? = some (.read content next) →
      Moves H log s (.resume t) (load H log s t content next)
  | opens {t : ℕ} {next : Option AppendRequest} : s.tasks[t]? = some (.loaded next) →
      Moves H log s (.resume t) { s with opened := true, tasks := s.tasks.set t (.ready next) }
  | appends {ev : Event} {s₁ : LogState} {t : ℕ} (request : AppendRequest) : Starts s s₁ t →
      s.opened = true ∨ (∃ next, .ready next ∈ s.tasks) → Moves H log s ev (append H log s₁ t request)
  | ingests {ev : Event} {s₁ : LogState} {t : ℕ} {after : After} {value : Option Value} :
      Starts s s₁ t → after.appends = false → Brings s ev value →
      Moves H log s ev (ingest H log s₁ t after value)
  | writes {t : ℕ} {extent : Extent} {entry : Value} {rest : List Value} {after : After} :
      s.tasks[t]? = some (.persisting entry false rest after) →
      Moves H log s (.write t extent) { s with
        file := s.file ++ [extent.line entry]
        tasks := s.tasks.set t (.persisting entry true rest after) }
  | settles {ev : Event} {t : ℕ} {entry : Value} {rest : List Value} {after : After} :
      s.tasks[t]? = some (.persisting entry true rest after) →
      Moves H log s ev (proceed H log s t after rest)
  | returns {ev : Event} {t : ℕ} {entry : Value} :
      s.tasks[t]? = some (.returning (.append entry)) →
      Moves H log s ev
        { s with tasks := s.tasks.set t .done, appended := s.appended ++ [entry] }

theorem resume_moves (ht : s.tasks[t]? = some task) (h : resume H log s t task = some s') :
    Moves H log s (.resume t) s' := by
  cases task with
  | read content next => exact Option.some.inj h ▸ .load ht
  | loaded next => exact Option.some.inj h ▸ .opens ht
  | ready next =>
    cases next with
    | none => exact Option.some.inj h ▸ .rested ht rfl (by simp [Task.unwritten])
    | some request =>
      exact Option.some.inj h ▸
        .appends request (.here ht rfl) (.inr ⟨_, List.mem_of_getElem? ht⟩)
  | returning after =>
    cases after with
    | ingest => exact Option.some.inj h ▸ .rested ht rfl (by simp [Task.unwritten])
    | append entry => exact Option.some.inj h ▸ .returns ht
    | pull headHash =>
      simp only [resume] at h
      split at h
      · exact Option.some.inj h ▸ .rested ht rfl (by simp [Task.unwritten])
      split at h
      · exact Option.some.inj h ▸ .rested ht rfl (by simp [Task.unwritten])
      · exact Option.some.inj h ▸ .rested ht rfl (by simp [Task.unwritten])
  | _ => cases h

theorem fail_moves (ht : s.tasks[t]? = some task) (h : fail s t task = some s') :
    Moves H log s (.fail t) s' := by
  cases task with
  | persisting entry written rest after =>
    refine Option.some.inj h ▸ .rested ht rfl fun hw => ?_
    cases written with
    | true => cases hw
    | false => rfl
  | opening next => exact Option.some.inj h ▸ .rested ht rfl (by simp [Task.unwritten])
  | asking => exact Option.some.inj h ▸ .rested ht rfl (by simp [Task.unwritten])
  | pulling => exact Option.some.inj h ▸ .rested ht rfl (by simp [Task.unwritten])
  | pushing headHash => exact Option.some.inj h ▸ .rested ht rfl (by simp [Task.unwritten])
  | _ => cases h

variable {ev : Event} {s₁ : LogState} {l : List Value} {e : Value} {j : ℕ}

theorem step_moves (h : step H log s ev = some s') : Moves H log s ev s' := by
  cases ev with
  | callOpen =>
    cases h
    cases hopened : s.opened with
    | true => exact .called (.inl rfl)
    | false => exact .called (.inr (.inr ⟨hopened, none, rfl⟩))
  | callAppend request =>
    simp only [step] at h
    split at h
    · next hopened => exact Option.some.inj h ▸ .appends request (.called s) (.inl hopened)
    · next hclosed =>
      have hclosed : s.opened = false := by simpa using hclosed
      exact Option.some.inj h ▸ .called (.inr (.inr ⟨hclosed, some request, rfl⟩))
  | callIngest entries => exact Option.some.inj h ▸ .ingests (.called s) rfl rfl
  | callSync => exact Option.some.inj h ▸ .called (.inr (.inl rfl))
  | readFile t =>
    simp only [step] at h
    split at h
    next next ht => exact Option.some.inj h ▸ .read ht
    next => cases h
  | resume t =>
    obtain ⟨task, ht, h⟩ := Option.bind_eq_some_iff.mp h
    exact resume_moves ht h
  | write t extent =>
    simp only [step] at h
    split at h
    next entry rest after ht => exact Option.some.inj h ▸ .writes ht
    next => cases h
  | settle t =>
    simp only [step] at h
    split at h
    next entry rest after ht => exact Option.some.inj h ▸ .settles ht
    next => cases h
  | fail t =>
    obtain ⟨task, ht, h⟩ := Option.bind_eq_some_iff.mp h
    exact fail_moves ht h
  | answer t response =>
    obtain ⟨task, ht, h⟩ := Option.bind_eq_some_iff.mp h
    rcases answer_cases h with ⟨hw, task', hi, rfl⟩ | ⟨rfl, headHash, rfl⟩
    · exact .rested ht hi (by simp [hw])
    · exact .ingests (.here ht rfl) rfl ⟨ht, rfl⟩

/-! ### Append only -/

/-- `open` puts what it has read in the place of entries that the log holds already. -/
def Replaces (s : LogState) : Event → Prop
  | .resume t => s.entries ≠ [] ∧
      ∃ content next, s.tasks[t]? = some (.read content next) ∧ content ≠ []
  | _ => False

/-- One step of a log, its callers or its peers. -/
def Stepped (H : LogHost) (log : Log) (s s' : LogState) : Prop := ∃ ev, step H log s ev = some s'

/-- A step in which `open` replaces no entries. -/
def Undisturbed (H : LogHost) (log : Log) (s s' : LogState) : Prop :=
  ∃ ev, ¬Replaces s ev ∧ step H log s ev = some s'

theorem Proceeds.grows (hp : Proceeds H log s t after s') (h : Chain H log s.entries) :
    Chain H log s'.entries ∧ s.entries <+: s'.entries := by
  cases hp with
  | failed reason => exact ⟨h, List.prefix_refl _⟩
  | returning => exact ⟨h, List.prefix_refl _⟩
  | pushed entry rest hx => exact ⟨h.snoc ((examine_push h).mp hx), List.prefix_append _ _⟩

theorem Starts.entries (h : Starts s s₁ t) : s₁.entries = s.entries := by
  rcases h.state with rfl | rfl
  · rfl
  · rfl

theorem reload_entries {parsed : List Value} :
    (reload H log parsed).1 = (ingestAll H log [] parsed).1 := by
  unfold reload
  split
  next heq => rw [heq]
  next heq => rw [heq]

/-- What `open` leaves: the entries as they were, or those it has read. -/
theorem load_entries (s : LogState) (t : ℕ) (content : List Line) (next : Option AppendRequest) :
    (load H log s t content next).entries = s.entries ∨
      content ≠ [] ∧ ∃ parsed,
        (load H log s t content next).entries = (ingestAll H log [] parsed).1 := by
  unfold load
  split
  · exact .inl rfl
  next hc =>
    split
    · exact .inl rfl
    next parsed hp =>
      refine .inr ⟨by simpa using hc, parsed, ?_⟩
      rw [← reload_entries]
      split
      next heq => rw [heq]
      next heq => rw [heq]

/-- STEP: the entries stay a chain, and unless `open` replaces them they stay. -/
theorem step_grows (h : Chain H log s.entries) (hs : step H log s ev = some s') :
    Chain H log s'.entries ∧ (¬Replaces s ev → s.entries <+: s'.entries) := by
  cases step_moves hs with
  | called => exact ⟨h, fun _ => List.prefix_refl _⟩
  | rested => exact ⟨h, fun _ => List.prefix_refl _⟩
  | read => exact ⟨h, fun _ => List.prefix_refl _⟩
  | @load t content next ht =>
    rcases @load_entries H log s t content next with heq | ⟨hc, parsed, heq⟩
    · rw [heq]
      exact ⟨h, fun _ => List.prefix_refl _⟩
    · rw [heq]
      refine ⟨ingestAll_keeps .nil, fun hr => ?_⟩
      by_cases hempty : s.entries = []
      · rw [hempty]
        exact List.nil_prefix
      · exact absurd ⟨hempty, content, next, ht, hc⟩ hr
  | opens => exact ⟨h, fun _ => List.prefix_refl _⟩
  | @appends ev s₁ t request hstart _ =>
    obtain ⟨entry, hp⟩ := append_proceeds H log s₁ t request
    have hgrows := hp.grows (hstart.entries ▸ h)
    rw [hstart.entries] at hgrows
    exact ⟨hgrows.1, fun _ => hgrows.2⟩
  | @ingests ev s₁ t after value hstart =>
    have hp : Proceeds H log s₁ t after (ingest H log s₁ t after value) := ingest_proceeds _ _
    have hgrows := hp.grows (hstart.entries ▸ h)
    rw [hstart.entries] at hgrows
    exact ⟨hgrows.1, fun _ => hgrows.2⟩
  | writes => exact ⟨h, fun _ => List.prefix_refl _⟩
  | settles => exact ⟨((proceeds _ _).grows h).1, fun _ => ((proceeds _ _).grows h).2⟩
  | returns => exact ⟨h, fun _ => List.prefix_refl _⟩

/-- RUN: the entries are a chain at all times. -/
theorem chain_of_run (h : Chain H log s.entries) (hrun : ReflTransGen (Stepped H log) s s') :
    Chain H log s'.entries := by
  induction hrun with
  | refl => exact h
  | tail _ hstep ih =>
    obtain ⟨ev, hev⟩ := hstep
    exact (step_grows ih hev).1

theorem prefix_of_run (h : Chain H log s.entries)
    (hrun : ReflTransGen (Undisturbed H log) s s') : s.entries <+: s'.entries := by
  have hsub : ∀ a b, Undisturbed H log a b → Stepped H log a b := fun _ _ ⟨ev, _, hev⟩ => ⟨ev, hev⟩
  have hchain : ∀ {k}, ReflTransGen (Undisturbed H log) s k → Chain H log k.entries := fun hk =>
    chain_of_run h (ReflTransGen.mono hsub _ _ hk)
  induction hrun with
  | refl => exact List.prefix_refl _
  | tail hk hstep ih =>
    obtain ⟨ev, hr, hev⟩ := hstep
    exact ih.trans ((step_grows (hchain hk) hev).2 hr)

/-- `open` has returned, and no other call of it is under way. -/
structure Quiescent (s : LogState) : Prop where
  opened : s.opened = true
  loaded : ∀ task ∈ s.tasks, task.loading = false

theorem Quiescent.put (h : Quiescent s) (hl : task.loading = false) :
    ∀ k ∈ s.tasks.set t task, k.loading = false :=
  fun k hk => (List.mem_or_eq_of_mem_set hk).elim (h.loaded k) (· ▸ hl)

theorem Quiescent.call (h : Quiescent s) (hl : task.loading = false) : Quiescent (s.call task) := by
  refine ⟨h.opened, fun k hk => ?_⟩
  rcases List.mem_append.mp hk with hk | hk
  · exact h.loaded k hk
  · exact List.mem_singleton.mp hk ▸ hl

theorem Quiescent.starts (h : Quiescent s) (hs : Starts s s₁ t) : Quiescent s₁ := by
  rcases hs.state with rfl | rfl
  · exact h
  · exact h.call rfl

theorem Quiescent.proceeds (h : Quiescent s) (hp : Proceeds H log s t after s') : Quiescent s' := by
  cases hp with
  | failed reason => exact ⟨h.opened, h.put rfl⟩
  | returning => exact ⟨h.opened, h.put (by cases after <;> rfl)⟩
  | pushed entry rest => exact ⟨h.opened, h.put rfl⟩

theorem Quiescent.step (h : Quiescent s) (hs : step H log s ev = some s') :
    Quiescent s' ∧ ¬Replaces s ev := by
  constructor
  · cases step_moves hs with
    | called ht =>
      rcases ht with rfl | rfl | ⟨hclosed, next, rfl⟩
      · exact h.call rfl
      · exact h.call rfl
      · exact absurd hclosed (by simp [h.opened])
    | rested ht hi => exact ⟨h.opened, h.put (Task.loading_of_inert hi)⟩
    | read ht => exact absurd (h.loaded _ (List.mem_of_getElem? ht)) (by simp [Task.loading])
    | load ht => exact absurd (h.loaded _ (List.mem_of_getElem? ht)) (by simp [Task.loading])
    | opens => exact ⟨rfl, h.put rfl⟩
    | @appends ev s₁ t request hstart _ =>
      obtain ⟨entry, hp⟩ := append_proceeds H log s₁ t request
      exact (h.starts hstart).proceeds hp
    | ingests hstart => exact (h.starts hstart).proceeds (ingest_proceeds _ _)
    | writes => exact ⟨h.opened, h.put rfl⟩
    | settles => exact h.proceeds (Trust.proceeds _ _)
    | returns => exact ⟨h.opened, h.put rfl⟩
  · intro hr
    cases ev with
    | resume t =>
      obtain ⟨-, content, next, ht, -⟩ := hr
      exact absurd (h.loaded _ (List.mem_of_getElem? ht)) (by simp [Task.loading])
    | _ => exact hr

/-- From then on nothing is replaced. -/
theorem Quiescent.run (h : Quiescent s) (hrun : ReflTransGen (Stepped H log) s s') :
    Quiescent s' ∧ ReflTransGen (Undisturbed H log) s s' := by
  induction hrun with
  | refl => exact ⟨h, .refl⟩
  | tail _ hstep ih =>
    obtain ⟨ev, hev⟩ := hstep
    obtain ⟨hsettled, hr⟩ := ih.1.step hev
    exact ⟨hsettled, ih.2.tail ⟨ev, hr, hev⟩⟩

theorem Chain.take (h : Chain H log l) (k : ℕ) : Chain H log (l.take k) := by
  rw [← List.take_append_drop k l] at h
  exact h.of_append

theorem headHash_take (h : Chain H log l) (he : l[j]? = some e) :
    some (Value.string (headHash (l.take (j + 1)))) = e.get "entryHash" := by
  have htake : l.take (j + 1) = l.take j ++ [e] := by
    rw [List.take_add_one, he]
    rfl
  have hfits : Fits H log (l.take j) e := (htake ▸ h.take (j + 1)).last
  rw [htake, hfits.headHash, entryHash_of_valid hfits.verified]

/-- Entries with one hash at one place have one content before them. -/
theorem content_of_entry {m : List Value} {f : Value} (hl : Chain H log l) (hm : Chain H log m)
    (hd : Distinct H.toPlatform (l ++ m)) (he : l[j]? = some e) (hf : m[j]? = some f)
    (h : e.get "entryHash" = f.get "entryHash") :
    (l.take (j + 1)).map unsignedEntry = (m.take (j + 1)).map unsignedEntry := by
  have hhead := (headHash_take hl he).trans (h.trans (headHash_take hm hf).symm)
  refine chain_of_head (hl.take _) (hm.take _) (hd.mono fun x hx => ?_) (by simpa using hhead)
  rcases List.mem_append.mp hx with hx | hx
  · exact List.mem_append_left _ (List.mem_of_mem_take hx)
  · exact List.mem_append_right _ (List.mem_of_mem_take hx)

/-- APPEND ONLY: in every run the entries are a chain, and chains with one head have one content.
    While `open` replaces no entries, and so always once it has returned, none changes or goes, and
    of a peer whose chain has other content at some place no entry is taken from there on. -/
theorem append_only (H : LogHost) (log : Log) (s s' : LogState) (hs : Chain H log s.entries)
    (hrun : ReflTransGen (Stepped H log) s s') :
    Chain H log s'.entries ∧
    (∀ log₂ l, Chain H log₂ l → Distinct H.toPlatform (s'.entries ++ l) →
      headHash s'.entries = headHash l →
        s'.entries.map unsignedEntry = l.map unsignedEntry) ∧
    (Quiescent s ∨ ReflTransGen (Undisturbed H log) s s' → s.entries <+: s'.entries ∧
      ∀ peer, Chain H log peer → Distinct H.toPlatform (s'.entries ++ peer) →
        ∀ (i : ℕ) (x y : Value), s.entries[i]? = some x → peer[i]? = some y →
          unsignedEntry x ≠ unsignedEntry y → ∀ (j : ℕ) (e f : Value), i ≤ j →
            s'.entries[j]? = some e → peer[j]? = some f →
              e.get "entryHash" ≠ f.get "entryHash") := by
  have hchain := chain_of_run hs hrun
  refine ⟨hchain, fun log₂ l hl hd hh => chain_of_head hchain hl hd hh, fun hquiet => ?_⟩
  have hgrows : s.entries <+: s'.entries := by
    rcases hquiet with hsettled | hquiet
    · exact prefix_of_run hs (hsettled.run hrun).2
    · exact prefix_of_run hs hquiet
  refine ⟨hgrows, fun peer hpeer hd i x y hx hy hne j e f hij he hf hhash => hne ?_⟩
  have hcontent := content_of_entry hchain hpeer hd he hf hhash
  have hx' : s'.entries[i]? = some x := by
    obtain ⟨rest, hrest⟩ := hgrows
    rw [← hrest, List.getElem?_append_left (List.getElem_of_getElem? hx).1]
    exact hx
  have hat := congrArg (fun l : List Value => l[i]?) hcontent
  simp only [List.getElem?_map, List.getElem?_take, Nat.lt_succ_of_le hij, if_true, hx', hy,
    Option.map_some, Option.some.injEq] at hat
  exact hat

/-! ### Sample runs -/

/-- Every step of the list, one after the other. -/
def replay (H : LogHost) (log : Log) (s : LogState) (evs : List Event) : Option LogState :=
  evs.foldlM (step H log) s

theorem run_of_replay {evs : List Event} (h : replay H log s evs = some s') :
    ReflTransGen (Stepped H log) s s' := by
  induction evs generalizing s with
  | nil =>
    cases h
    exact .refl
  | cons ev evs ih =>
    rw [replay, List.foldlM_cons] at h
    obtain ⟨k, hk, h⟩ := Option.bind_eq_some_iff.mp h
    exact .head ⟨ev, hk⟩ (ih h)

def plainHost : LogHost := { plain with numberOf := fun _ => none, sortRevocations := some }

def plainLog : Log := ⟨js "owner"⟩

def rootRequest (targetId : String) : AppendRequest :=
  ⟨⟨js "owner", js "owner", js "key"⟩, js "ROOT", .string (js targetId), .null,
    js "1970-01-01T00:00:00.000Z"⟩

/-- The first entry of a log, for a target. -/
def rootEntry (targetId : String) : Value :=
  match newEntry plainHost plainLog [] (rootRequest targetId) with
  | .ok entry => entry
  | .error _ => .null

/-- The same signature, spelt with a newline that base64 skips. -/
def resigned : Value → Value
  | .object members => .object (members.map fun m =>
      if m.1 = js "signature" then (m.1, .string (js "signed\n")) else m)
  | value => value

def afterIngest (entry : Value) : LogState :=
  ingest plainHost plainLog (({ opened := true } : LogState).call .done) 0 .ingest
    (some (.array [entry]))

theorem afterIngest_run (entry : Value) :
    ReflTransGen (Stepped plainHost plainLog) { opened := true } (afterIngest entry) :=
  .single ⟨.callIngest (some (.array [entry])), rfl⟩

/-- A second entry, appended to a log that has been opened and has the first. -/
def afterAppend : LogState :=
  append plainHost plainLog ((afterIngest (rootEntry "alice")).call .done) 1 (rootRequest "bob")

theorem append_only_second : Chain plainHost plainLog afterAppend.entries ∧
    (afterIngest (rootEntry "alice")).entries <+: afterAppend.entries := by
  have hopened : (afterIngest (rootEntry "alice")).opened = true := by decide +kernel
  have htasks : (afterIngest (rootEntry "alice")).tasks.length = 1 := by decide +kernel
  have hstep : step plainHost plainLog (afterIngest (rootEntry "alice"))
      (.callAppend (rootRequest "bob")) = some afterAppend := by
    simp only [step, hopened, if_true, htasks, afterAppend]
  have hall := append_only plainHost plainLog (afterIngest (rootEntry "alice")) afterAppend
    (chain_of_run .nil (afterIngest_run _)) (.single ⟨_, hstep⟩)
  exact ⟨hall.1, (hall.2.2 (.inl ⟨hopened, by decide +kernel⟩)).1⟩

/-- A field of every entry. -/
def textsAt (field : String) (entries : List Value) : List (Option JsString) :=
  entries.map fun entry =>
    match entry.get field with
    | some (.string s) => some s
    | _ => none

/-- A log that has been handed an entry, and is then opened on a file with another one. -/
def reopened : List Event :=
  [.callIngest (some (.array [rootEntry "bob"])), .callOpen, .readFile 1]

/-- A head does not tell signatures apart, and `open` replaces what it finds. -/
theorem heads_forget_signatures :
    (∃ s₁ s₂, ReflTransGen (Stepped plainHost plainLog) { opened := true } s₁ ∧
      ReflTransGen (Stepped plainHost plainLog) { opened := true } s₂ ∧
      headHash s₁.entries = headHash s₂.entries ∧ s₁.entries ≠ s₂.entries) ∧
    ∃ s s', ReflTransGen (Stepped plainHost plainLog) { file := [.whole (rootEntry "alice")] } s ∧
      Stepped plainHost plainLog s s' ∧ ¬s.entries <+: s'.entries := by
  constructor
  · refine ⟨_, _, afterIngest_run (rootEntry "alice"), afterIngest_run (resigned (rootEntry "alice")),
      by decide +kernel, fun h => ?_⟩
    have htexts : textsAt "signature" (afterIngest (rootEntry "alice")).entries ≠
        textsAt "signature" (afterIngest (resigned (rootEntry "alice"))).entries := by decide +kernel
    exact htexts (congrArg _ h)
  · have hsome : ((replay plainHost plainLog { file := [.whole (rootEntry "alice")] } reopened).bind
        fun s => (step plainHost plainLog s (.resume 1)).map fun s' =>
          (textsAt "targetId" s.entries, textsAt "targetId" s'.entries)) =
            some ([some (js "bob")], [some (js "alice")]) := by decide +kernel
    obtain ⟨s, hs, hsome⟩ := Option.bind_eq_some_iff.mp hsome
    obtain ⟨s', hs', htexts⟩ := Option.map_eq_some_iff.mp hsome
    obtain ⟨hbob, halice⟩ := Prod.mk.inj htexts
    refine ⟨s, s', run_of_replay hs, ⟨_, hs'⟩, fun h => ?_⟩
    have htargets : textsAt "targetId" s.entries <+: textsAt "targetId" s'.entries := h.map _
    rw [hbob, halice] at htargets
    exact absurd htargets (by decide)

end Truyn.Trust
