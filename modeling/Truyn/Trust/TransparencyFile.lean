import Truyn.Trust.TransparencyRuns

/-! trust:transparency-file | what a log's file holds, whatever is pending and fails

    The file of an orderly run is a beginning of the entries in memory, line by line. A run is orderly
    when each write that lands puts down, whole, the line after the last one, when `open` sees the
    file as it is, and when no entry is stored before the file has been read. -/

namespace Truyn.Trust
open Checks Relation

variable {H : LogHost} {log : Log} {s s' : LogState} {t : ℕ} {task : Task} {file : List Line}
variable {l m : List Value} {e : Value} {after : After}

/-! ### Orderly steps -/

/-- `head()` does not throw: the revocations can be sorted and digested. -/
def Known (H : LogHost) (log : Log) (entries : List Value) : Prop :=
  ∃ h, head H log entries = .ok h

/-- The file holds entries that `open` has not read. -/
def Unread (s : LogState) : Prop := s.opened = false ∧ s.entries = [] ∧ s.file ≠ []

/-- The lines of the file are the first of the entries. -/
def InFile (s : LogState) : Prop := s.file <+: s.entries.map .whole

def InOrder (H : LogHost) (log : Log) (s : LogState) : Event → Prop
  | .write t extent => ∀ entry rest after,
      s.tasks[t]? = some (.persisting entry false rest after) →
        extent = .all ∧ s.entries[s.file.length]? = some entry ∧
        Known H log (s.entries.take (s.file.length + 1))
  | .resume t => ∀ content next,
      s.tasks[t]? = some (.read content next) → content ≠ [] → content = s.file
  | ev => Unread s → ∀ e es, Brings s ev (some (.array (e :: es))) → examine H log [] e ≠ .ok true

/-- A step that is in order. -/
def Orderly (H : LogHost) (log : Log) (s s' : LogState) : Prop :=
  ∃ ev, InOrder H log s ev ∧ step H log s ev = some s'

/-! ### Lines and entries -/

theorem parse_lines (l : List Value) : parse (l.map .whole) = some l := by
  induction l with
  | nil => rfl
  | cons e l ih =>
    rw [List.map_cons, parse, ih]
    rfl

theorem reload_lines (hl : Chain H log l) {h : Head} (hh : head H log l = .ok h) :
    reload H log l = (l, .ok h) := by
  have hall : ingestAll H log [] l = (l, .ok ()) := ingestAll_chain hl .nil
  rw [reload, hall, ← hh]

theorem whole_injective : Function.Injective Line.whole := fun _ _ h => Line.whole.inj h

/-- The number of an entry is its place. -/
theorem Chain.sequence {i : ℕ} (h : Chain H log l) (he : l[i]? = some e) :
    e.get "sequence" = some (.number (i + 1)) := by
  have htake : l.take (i + 1) = l.take i ++ [e] := by
    rw [List.take_add_one, he]
    rfl
  have hfits : Fits H log (l.take i) e := (htake ▸ h.take (i + 1)).last
  have hlt : i < l.length := (List.getElem_of_getElem? he).1
  rw [hfits.sequence, List.length_take, Nat.min_eq_left (Nat.le_of_lt hlt)]

/-- A beginning that has every entry is all of them. -/
theorem prefix_all (h : Chain H log m) (hl : l <+: m) (hall : ∀ e ∈ m, e ∈ l) : l = m := by
  obtain ⟨k, rfl⟩ := hl
  cases k with
  | nil => simp
  | cons e k =>
    have he : (l ++ e :: k)[l.length]? = some e := by simp
    obtain ⟨i, hi⟩ := List.mem_iff_getElem?.mp (hall e (by simp))
    have hlt : i < l.length := (List.getElem_of_getElem? hi).1
    have hi' : (l ++ e :: k)[i]? = some e := by rw [List.getElem?_append_left hlt, hi]
    have hnumber := (h.sequence hi').symm.trans (h.sequence he)
    simp only [Option.some.injEq, Value.number.injEq, add_left_inj, Nat.cast_inj] at hnumber
    omega

/-- A new entry has the next number, so it is no entry of the log. -/
theorem newEntry_sequence {r : AppendRequest} (h : newEntry H log l r = .ok e) :
    e.get "sequence" = some (.number (lastSequence l + 1)) := by
  simp only [newEntry, guard_ok] at h
  obtain ⟨-, -, -, h⟩ := h
  split at h
  · cases h
  · cases h
    rfl

/-- `append` fails, or it pushes its entry, and waits for that write and no other. -/
theorem append_cases (h : Chain H log s.entries) (t : ℕ) (r : AppendRequest) :
    (∃ reason, append H log s t r = s.put t (.failed reason)) ∨
      ∃ entry, examine H log s.entries entry = .ok true ∧ append H log s t r =
        { s with
          entries := s.entries ++ [entry]
          tasks := s.tasks.set t (.persisting entry false [] (.append entry)) } := by
  rw [append]
  cases hn : newEntry H log s.entries r with
  | error reason => exact .inl ⟨_, rfl⟩
  | ok entry =>
    simp only [proceed]
    cases hx : examine H log s.entries entry with
    | error reason => exact .inl ⟨_, rfl⟩
    | ok push =>
      cases push with
      | true => exact .inr ⟨entry, hx, rfl⟩
      | false =>
        have hnone : existingAt H s.entries entry = none :=
          existingAt_none (by rw [newEntry_sequence hn, h.lastSequence])
        obtain ⟨u, -, hx⟩ := bind_ok.mp hx
        rw [hnone] at hx
        simp only [guard_ok] at hx
        exact absurd hx.2 (by simp [pure, Except.pure])

/-! ### Sound logs -/

/-- Tasks that are there only once the file has been read, or was empty. -/
def Task.reached : Task → Bool
  | .read [] _ | .loaded _ | .ready _ | .persisting .. => true
  | _ => false

def Task.sound (file : List Line) : Task → Prop
  | .persisting entry written rest after =>
    (written = true → .whole entry ∈ file) ∧ ∀ e, after = .append e → e = entry ∧ rest = []
  | .returning (.append entry) => .whole entry ∈ file
  | _ => True

/-- The entry has still to be written, or its write has failed. -/
def Task.owes (e : Value) : Task → Prop
  | .persisting entry false _ _ => entry = e
  | .broken false => True
  | _ => False

structure Sound (H : LogHost) (log : Log) (s : LogState) : Prop where
  chain : Chain H log s.entries
  file : ∃ l, s.file = l.map .whole ∧ Chain H log l ∧ (l = [] ∨ Known H log l)
  inFile : s.opened = true ∨ s.entries ≠ [] ∨ (∃ task ∈ s.tasks, task.reached = true) → InFile s
  tasks : ∀ task ∈ s.tasks, task.sound s.file
  kept : ∀ e ∈ s.entries, .whole e ∈ s.file ∨ ∃ task ∈ s.tasks, task.owes e
  appended : ∀ e ∈ s.appended, .whole e ∈ s.file

theorem Task.owes_unwritten (h : task.owes e) : task.unwritten = true := by
  cases task with
  | persisting entry written rest after => cases written <;> simp_all [owes, unwritten]
  | broken written => cases written <;> simp_all [owes, unwritten]
  | _ => exact h.elim

theorem Task.sound_of_inert (h : task.inert = true) : task.sound file := by
  cases task with
  | returning after => cases after <;> simp_all [inert, sound]
  | persisting => simp [inert] at h
  | _ => trivial

theorem Task.reached_of_inert (h : task.inert = true) : task.reached = false := by
  cases task <;> simp_all [inert, reached]

variable {task' : Task} {s₁ : LogState} {entry : Value} {rest : List Value} {value : Option Value}

/-- What is owed is owed still when another task, or one that owes it too, takes the place of one. -/
theorem owed_set {tasks : List Task} (ht : tasks[t]? = some task) (hw : task.owes e → task'.owes e)
    (h : ∃ k ∈ tasks, k.owes e) :
    ∃ k ∈ tasks.set t task', k.owes e := by
  obtain ⟨k, hk, howes⟩ := h
  obtain ⟨i, hi⟩ := List.mem_iff_getElem?.mp hk
  have hlt : t < tasks.length := (List.getElem_of_getElem? ht).1
  by_cases hit : t = i
  · subst hit
    obtain rfl : task = k := by simpa [ht] using hi
    exact ⟨task', List.mem_set hlt _, hw howes⟩
  · exact ⟨k, List.mem_of_getElem? (by rw [List.getElem?_set_ne hit, hi]), howes⟩

theorem Sound.set (h : Sound H log s) (ht : s.tasks[t]? = some task) (hs : task'.sound s.file)
    (ho : ∀ e, task.owes e → task'.owes e) (hr : task'.reached = true → InFile s) :
    Sound H log (s.put t task') where
  __ := h
  inFile := by
    rintro (hopened | hentries | ⟨k, hk, hreached⟩)
    · exact h.inFile (.inl hopened)
    · exact h.inFile (.inr (.inl hentries))
    · rcases List.mem_or_eq_of_mem_set hk with hk | rfl
      · exact h.inFile (.inr (.inr ⟨k, hk, hreached⟩))
      · exact hr hreached
  tasks := fun k hk => (List.mem_or_eq_of_mem_set hk).elim (h.tasks k) (· ▸ hs)
  kept := fun e he => (h.kept e he).imp id fun hk => owed_set ht (ho e) hk

theorem Sound.call (h : Sound H log s) (hs : task.sound s.file) (hr : task.reached = false) :
    Sound H log (s.call task) where
  __ := h
  inFile := by
    rintro (hopened | hentries | ⟨k, hk, hreached⟩)
    · exact h.inFile (.inl hopened)
    · exact h.inFile (.inr (.inl hentries))
    · rcases List.mem_append.mp hk with hk | hk
      · exact h.inFile (.inr (.inr ⟨k, hk, hreached⟩))
      · obtain rfl := List.mem_singleton.mp hk
        exact absurd hreached (by simp [hr])
  tasks := fun k hk => (List.mem_append.mp hk).elim (h.tasks k) fun hk =>
    List.mem_singleton.mp hk ▸ hs
  kept := fun e he => (h.kept e he).imp id fun ⟨k, hk, howes⟩ =>
    ⟨k, List.mem_append_left _ hk, howes⟩

theorem Sound.starts (h : Sound H log s) (hs : Starts s s₁ t) :
    Sound H log s₁ := by
  rcases hs.state with rfl | rfl
  · exact h
  · exact h.call trivial rfl

/-- Nothing is owed by a task that the loop starts from. -/
theorem Starts.set (hs : Starts s s₁ t) (h : Sound H log s₁) (hsound : task'.sound s₁.file)
    (hr : task'.reached = true → InFile s₁) :
    Sound H log (s₁.put t task') := by
  obtain ⟨task, ht, hw⟩ := hs.task
  refine h.set ht hsound (fun e howes => ?_) hr
  exact absurd (Task.owes_unwritten howes) (by simp [hw])

/-- An entry is pushed, and its write is owed. -/
theorem Sound.push (h : Sound H log s) (ht : s.tasks[t]? = some task) (hw : task.unwritten = false)
    (hin : InFile s) (hx : examine H log s.entries entry = .ok true)
    (hafter : ∀ e, after = .append e → e = entry ∧ rest = []) :
    Sound H log { s with
      entries := s.entries ++ [entry]
      tasks := s.tasks.set t (.persisting entry false rest after) } where
  __ := h
  chain := h.chain.snoc ((examine_push h.chain).mp hx)
  inFile := fun _ => hin.trans ((List.prefix_append s.entries [entry]).map _)
  tasks := fun k hk => by
    rcases List.mem_or_eq_of_mem_set hk with hk | rfl
    · exact h.tasks k hk
    · exact ⟨fun hwritten => (nomatch hwritten), hafter⟩
  kept := fun e he => by
    have hlt : t < s.tasks.length := (List.getElem_of_getElem? ht).1
    rcases List.mem_append.mp he with he | he
    · refine (h.kept e he).imp id fun hk => owed_set ht (fun howes => ?_) hk
      exact absurd (Task.owes_unwritten howes) (by simp [hw])
    · exact .inr ⟨_, List.mem_set hlt _, (List.mem_singleton.mp he).symm⟩

theorem Sound.proceeds (h : Sound H log s) (ht : s.tasks[t]? = some task)
    (hw : task.unwritten = false) (hin : InFile s) (ha : after.appends = false)
    (hp : Proceeds H log s t after s') : Sound H log s' := by
  have howes : ∀ {k : Task}, ∀ e, task.owes e → k.owes e := fun e howes =>
    absurd (Task.owes_unwritten howes) (by simp [hw])
  cases hp with
  | failed reason => exact h.set ht trivial howes (fun _ => hin)
  | returning =>
    refine h.set ht ?_ howes (fun _ => hin)
    cases after with
    | append e => cases ha
    | _ => trivial
  | pushed entry rest hx =>
    refine h.push ht hw hin hx fun e he => ?_
    subst he
    cases ha

/-- `open` reads the lines of the file: the entries are those of the file, and no others. -/
theorem Sound.load {content : List Line} {next : Option AppendRequest} (h : Sound H log s)
    (ht : s.tasks[t]? = some (.read content next)) (hc : content ≠ [] → content = s.file) :
    Sound H log (load H log s t content next) := by
  have howes : ∀ {k : Task}, ∀ e, (Task.read content next).owes e → k.owes e :=
    fun _ howes => howes.elim
  cases content with
  | nil =>
    have hin : InFile s := h.inFile (.inr (.inr ⟨_, List.mem_of_getElem? ht, rfl⟩))
    have hset : Sound H log (s.put t (.ready next)) := h.set ht trivial howes fun _ => hin
    exact { hset with inFile := fun _ => hin }
  | cons line content =>
    obtain ⟨l, hl, hchain, hknown⟩ := h.file
    have hfile : line :: content = l.map .whole := (hc (by simp)).trans hl
    have hne : l ≠ [] := by
      rintro rfl
      cases hfile
    obtain ⟨hd, hh⟩ := hknown.resolve_left hne
    have hload : Trust.load H log s t (line :: content) next =
        { s with entries := l, tasks := s.tasks.set t (.loaded next) } := by
      rw [Trust.load, hfile, parse_lines]
      simp [hne, reload_lines hchain hh]
    have hin : InFile { s with entries := l } := hl ▸ List.prefix_refl _
    rw [hload]
    exact {
      chain := hchain
      file := h.file
      inFile := fun _ => hin
      tasks := fun k hk => by
        rcases List.mem_or_eq_of_mem_set hk with hk | rfl
        · exact h.tasks k hk
        · trivial
      kept := fun e he => .inl (hl ▸ List.mem_map_of_mem he)
      appended := h.appended }

/-- A log that has not read its file stores nothing of what it is handed. -/
theorem ingest_unread (hentries : s.entries = [])
    (hx : ∀ e es, value = some (.array (e :: es)) → examine H log [] e ≠ .ok true) :
    (∃ reason, ingest H log s t after value = s.put t (.failed reason)) ∨
      ingest H log s t after value = s.put t (.returning after) := by
  unfold ingest
  split
  · next es =>
    cases es with
    | nil =>
      rw [proceed, finish]
      cases head H log s.entries with
      | error reason => exact .inl ⟨_, rfl⟩
      | ok hd => exact .inr rfl
    | cons e es =>
      rw [proceed, hentries]
      cases hxe : examine H log [] e with
      | error reason => exact .inl ⟨_, rfl⟩
      | ok push =>
        cases push with
        | true => exact absurd hxe (hx e es rfl)
        | false =>
          obtain ⟨u, -, hxe⟩ := bind_ok.mp hxe
          have hnone : existingAt H [] e = none := by
            rw [existingAt]
            cases H.toNumber (e.get "sequence") with
            | none => rfl
            | some x => simp
          rw [hnone] at hxe
          simp only [guard_ok] at hxe
          exact absurd hxe.2 (by simp [pure, Except.pure])
  · exact .inl ⟨_, rfl⟩

theorem Sound.ingest (h : Sound H log s) (hs : Starts s s₁ t) (ha : after.appends = false)
    (hx : Unread s → ∀ e es, value = some (.array (e :: es)) → examine H log [] e ≠ .ok true) :
    Sound H log (ingest H log s₁ t after value) := by
  have h₁ : Sound H log s₁ := h.starts hs
  have hfile : s₁.file = s.file := by rcases hs.state with rfl | rfl <;> rfl
  have hopened : s₁.opened = s.opened := by rcases hs.state with rfl | rfl <;> rfl
  by_cases hin : InFile s₁
  · obtain ⟨task, ht, hw⟩ := hs.task
    exact h₁.proceeds ht hw hin ha (ingest_proceeds _ _)
  · have hentries : s₁.entries = [] := by
      by_contra hne
      exact hin (h₁.inFile (.inr (.inl hne)))
    have hunread : Unread s := by
      refine ⟨?_, hs.entries ▸ hentries, fun hnil => hin ?_⟩
      · by_contra htrue
        exact hin (h₁.inFile (.inl (by simpa [hopened] using htrue)))
      · rw [InFile, hfile, hnil]
        exact List.nil_prefix
    rcases ingest_unread hentries (hx hunread) with ⟨reason, heq⟩ | heq
    · rw [heq]
      exact hs.set h₁ trivial (fun hr => by cases hr)
    · rw [heq]
      refine hs.set h₁ ?_ (fun hr => by cases hr)
      cases after with
      | append e => cases ha
      | _ => trivial

/-- A write in order puts down the next line. -/
theorem Sound.write (h : Sound H log s)
    (ht : s.tasks[t]? = some (.persisting entry false rest after))
    (hnext : s.entries[s.file.length]? = some entry)
    (hknown : Known H log (s.entries.take (s.file.length + 1))) :
    Sound H log { s with
      file := s.file ++ [.whole entry]
      tasks := s.tasks.set t (.persisting entry true rest after) } := by
  have htask : Task.sound s.file (.persisting entry false rest after) :=
    h.tasks _ (List.mem_of_getElem? ht)
  have hin : InFile s := h.inFile (.inr (.inr ⟨_, List.mem_of_getElem? ht, rfl⟩))
  have htake : s.file ++ [.whole entry] = (s.entries.take (s.file.length + 1)).map .whole := by
    rw [List.take_add_one, hnext, List.map_append, List.map_take, ← List.prefix_iff_eq_take.mp hin]
    rfl
  have hline : s.file ++ [.whole entry] <+: s.entries.map .whole := by
    rw [htake, List.map_take]
    exact List.take_prefix _ _
  have hkeep : ∀ {e : Value}, Line.whole e ∈ s.file → .whole e ∈ s.file ++ [.whole entry] :=
    fun he => List.mem_append_left _ he
  have hentry : Line.whole entry ∈ s.file ++ [.whole entry] := by simp
  exact {
    chain := h.chain
    file := ⟨_, htake, h.chain.take _, .inr hknown⟩
    inFile := fun _ => hline
    tasks := fun k hk => by
      rcases List.mem_or_eq_of_mem_set hk with hk | rfl
      · have hk := h.tasks k hk
        cases k with
        | persisting e written rest after => exact ⟨fun hw => hkeep (hk.1 hw), hk.2⟩
        | returning after =>
          cases after with
          | append e => exact hkeep hk
          | _ => trivial
        | _ => trivial
      · exact ⟨fun _ => hentry, htask.2⟩
    kept := fun e he => by
      rcases h.kept e he with he | ⟨k, hk, howes⟩
      · exact .inl (hkeep he)
      · obtain ⟨i, hi⟩ := List.mem_iff_getElem?.mp hk
        by_cases hit : t = i
        · subst hit
          obtain rfl : Task.persisting entry false rest after = k := by simpa [ht] using hi
          obtain rfl : entry = e := howes
          exact .inl hentry
        · exact .inr ⟨k, List.mem_of_getElem? (by rw [List.getElem?_set_ne hit, hi]), howes⟩
    appended := fun e he => hkeep (h.appended e he) }

/-- STEP: an orderly step leaves a sound log. -/
theorem Sound.step {ev : Event} (h : Sound H log s) (ho : InOrder H log s ev)
    (hs : step H log s ev = some s') : Sound H log s' := by
  cases step_moves hs with
  | called ht =>
    rcases ht with rfl | rfl | ⟨-, next, rfl⟩
    · exact h.call trivial rfl
    · exact h.call trivial rfl
    · exact h.call trivial rfl
  | @rested ev t task task' ht hi hw =>
    refine h.set ht (Task.sound_of_inert hi) (fun e howes => ?_) fun hr => ?_
    · rw [hw (Task.owes_unwritten howes)]
      trivial
    · exact absurd hr (by simp [Task.reached_of_inert hi])
  | read ht =>
    refine h.set ht trivial (fun _ howes => howes.elim) fun hr => ?_
    rw [InFile]
    cases hfile : s.file with
    | nil => exact List.nil_prefix
    | cons line content =>
      rw [hfile] at hr
      cases hr
  | load ht => exact h.load ht (ho _ _ ht)
  | @opens t next ht =>
    have hin : InFile s := h.inFile (.inr (.inr ⟨_, List.mem_of_getElem? ht, rfl⟩))
    have hset : Sound H log (s.put t (.ready next)) :=
      h.set ht trivial (fun _ howes => howes.elim) fun _ => hin
    exact { hset with inFile := fun _ => hin }
  | @appends ev s₁ t request hstart hready =>
    have h₁ : Sound H log s₁ := h.starts hstart
    have hin : InFile s := by
      rcases hready with hopened | ⟨next, hnext⟩
      · exact h.inFile (.inl hopened)
      · exact h.inFile (.inr (.inr ⟨_, hnext, rfl⟩))
    have hin₁ : InFile s₁ := by rcases hstart.state with rfl | rfl <;> exact hin
    obtain ⟨task, ht, hw⟩ := hstart.task
    rcases append_cases h₁.chain t request with ⟨reason, heq⟩ | ⟨entry, hx, heq⟩
    · rw [heq]
      exact hstart.set h₁ trivial (fun hr => by cases hr)
    · rw [heq]
      exact h₁.push ht hw hin₁ hx fun e he => ⟨(After.append.inj he).symm, rfl⟩
  | @ingests ev s₁ t after value hstart ha hb =>
    refine h.ingest hstart ha fun hunread e es hvalue => ?_
    subst hvalue
    cases ev with
    | callIngest entries => exact ho hunread e es hb
    | answer t' response => exact ho hunread e es hb
    | _ => exact hb.elim
  | writes ht =>
    obtain ⟨rfl, hnext, hknown⟩ := ho _ _ _ ht
    exact h.write ht hnext hknown
  | @settles ev t entry rest after ht =>
    have hin : InFile s := h.inFile (.inr (.inr ⟨_, List.mem_of_getElem? ht, rfl⟩))
    have htask : Task.sound s.file (.persisting entry true rest after) :=
      h.tasks _ (List.mem_of_getElem? ht)
    cases after with
    | append e =>
      obtain ⟨rfl, rfl⟩ := htask.2 e rfl
      rw [proceed, finish]
      cases head H log s.entries with
      | error reason => exact h.set ht trivial (fun _ howes => howes.elim) fun _ => hin
      | ok hd => exact h.set ht (htask.1 rfl) (fun _ howes => howes.elim) fun _ => hin
    | ingest => exact h.proceeds ht rfl hin rfl (Trust.proceeds _ _)
    | pull headHash => exact h.proceeds ht rfl hin rfl (Trust.proceeds _ _)
  | @returns ev t entry ht =>
    have hset : Sound H log (s.put t .done) :=
      h.set ht trivial (fun _ howes => howes.elim) fun hr => by cases hr
    have hentry : Task.sound s.file (.returning (.append entry)) :=
      h.tasks _ (List.mem_of_getElem? ht)
    refine { hset with appended := fun e he => ?_ }
    rcases List.mem_append.mp he with he | he
    · exact h.appended e he
    · exact List.mem_singleton.mp he ▸ hentry

/-- RUN: an orderly run leaves a sound log. -/
theorem Sound.run (h : Sound H log s) (hrun : ReflTransGen (Orderly H log) s s') :
    Sound H log s' := by
  induction hrun with
  | refl => exact h
  | tail _ hstep ih =>
    obtain ⟨ev, ho, hev⟩ := hstep
    exact ih.step ho hev

/-! ### Reopening -/

theorem reopen_lines (hl : Chain H log l) (hk : l = [] ∨ Known H log l) :
    reopen H log (l.map .whole) = .ok l := by
  cases l with
  | nil => rfl
  | cons e l =>
    obtain ⟨hd, hh⟩ := hk.resolve_left (by simp)
    rw [reopen, parse_lines]
    simp [reload_lines hl hh, Except.map]

theorem Sound.start (hl : Chain H log l) (hk : l = [] ∨ Known H log l) :
    Sound H log { file := l.map .whole } where
  chain := .nil
  file := ⟨l, rfl, hl, hk⟩
  inFile := by
    rintro (hopened | hentries | ⟨k, hk, -⟩)
    · cases hopened
    · exact absurd rfl hentries
    · cases hk
  tasks := fun _ hk => (nomatch hk)
  kept := fun _ he => (nomatch he)
  appended := fun _ he => (nomatch he)

/-- DURABLE: in every orderly run, from a new log on a file of entries or on none, the file reopens.
    A log that is open, or holds entries, holds those of the file first, and holds no others when no
    write is owed; and what `append` has returned is in the file. -/
theorem durable (H : LogHost) (log : Log) (l : List Value) (s : LogState) (hl : Chain H log l)
    (hk : l = [] ∨ Known H log l)
    (hrun : ReflTransGen (Orderly H log) { file := l.map .whole } s) :
    ∃ m, reopen H log s.file = .ok m ∧ s.file = m.map .whole ∧
      (s.opened = true ∨ s.entries ≠ [] → m <+: s.entries ∧
        ((∀ task ∈ s.tasks, task.unwritten = false) → m = s.entries)) ∧
      ∀ e ∈ s.appended, e ∈ m := by
  have h : Sound H log s := (Sound.start hl hk).run hrun
  obtain ⟨m, hm, hchain, hknown⟩ := h.file
  have hmem : ∀ {e}, Line.whole e ∈ s.file → e ∈ m := fun he =>
    (List.mem_map_of_injective whole_injective).mp (hm ▸ he)
  refine ⟨m, hm ▸ reopen_lines hchain hknown, hm, fun hread => ?_, fun e he => hmem (h.appended e he)⟩
  have hin : InFile s := h.inFile (hread.imp id .inl)
  rw [InFile, hm, List.prefix_map_iff_of_injective whole_injective] at hin
  refine ⟨hin, fun hwritten => prefix_all h.chain hin fun e he => ?_⟩
  rcases h.kept e he with he | ⟨task, htask, howes⟩
  · exact hmem he
  · exact absurd (Task.owes_unwritten howes) (by simp [hwritten task htask])

/-! ### Sample runs -/

/-- An open log with one more entry, in a call of its own. -/
def LogState.serving (s : LogState) (e : Value) (file : List Line) (task : Task)
    (appended : List Value) : LogState :=
  ⟨s.entries ++ [e], true, file, s.tasks ++ [task], appended⟩

/-- An open log whose entries are all in the file serves an append. -/
theorem served {request : AppendRequest} (hopened : s.opened = true)
    (hfile : s.file = s.entries.map .whole) (hn : newEntry H log s.entries request = .ok e)
    (hx : examine H log s.entries e = .ok true) (hk : Known H log (s.entries ++ [e])) :
    ReflTransGen (Orderly H log) s
      (s.serving e (s.file ++ [.whole e]) .done (s.appended ++ [e])) := by
  obtain ⟨hd, hh⟩ := hk
  have hcall : Orderly H log s
      (s.serving e s.file (.persisting e false [] (.append e)) s.appended) := by
    refine ⟨.callAppend request, fun hunread => absurd hopened (by simp [hunread.1]), ?_⟩
    simp [step, hopened, append, LogState.call, hn, proceed, hx, LogState.serving]
  have hwrite : Orderly H log
      (s.serving e s.file (.persisting e false [] (.append e)) s.appended)
      (s.serving e (s.file ++ [.whole e]) (.persisting e true [] (.append e)) s.appended) := by
    refine ⟨.write s.tasks.length .all, fun entry rest after ht => ?_, ?_⟩
    · obtain ⟨rfl, -⟩ : e = entry ∧ _ := by simpa [LogState.serving] using ht
      refine ⟨rfl, by simp [LogState.serving, hfile], hd, ?_⟩
      rw [List.take_of_length_le (by simp [LogState.serving, hfile])]
      exact hh
    · simp [step, Extent.line, LogState.serving]
  have hsettle : Orderly H log
      (s.serving e (s.file ++ [.whole e]) (.persisting e true [] (.append e)) s.appended)
      (s.serving e (s.file ++ [.whole e]) (.returning (.append e)) s.appended) :=
    ⟨.settle s.tasks.length, fun hunread => absurd hunread.1 (by simp [LogState.serving]),
      by simp [step, proceed, finish, hh, LogState.put, LogState.serving]⟩
  have hreturn : Orderly H log
      (s.serving e (s.file ++ [.whole e]) (.returning (.append e)) s.appended)
      (s.serving e (s.file ++ [.whole e]) .done (s.appended ++ [e])) :=
    ⟨.resume s.tasks.length, fun content next ht => by simp [LogState.serving] at ht,
      by simp [step, resume, LogState.serving]⟩
  exact (((ReflTransGen.single hcall).tail hwrite).tail hsettle).tail hreturn

/-- A new log is opened where there is no file. -/
def openedNew : LogState := { opened := true, tasks := [.done] }

theorem openedNew_orderly : ReflTransGen (Orderly plainHost plainLog) {} openedNew := by
  have hcall : Orderly plainHost plainLog {} { tasks := [.opening none] } :=
    ⟨.callOpen, fun h => absurd rfl h.2.2, rfl⟩
  have hread : Orderly plainHost plainLog { tasks := [.opening none] } { tasks := [.read [] none] } :=
    ⟨.readFile 0, fun h => absurd rfl h.2.2, rfl⟩
  have hload : Orderly plainHost plainLog { tasks := [.read [] none] }
      { opened := true, tasks := [.ready none] } :=
    ⟨.resume 0, fun content next ht _ => (Task.read.inj (Option.some.inj ht)).1.symm, rfl⟩
  have hready : Orderly plainHost plainLog { opened := true, tasks := [.ready none] } openedNew :=
    ⟨.resume 0, fun content next ht => (by cases ht), rfl⟩
  exact (((ReflTransGen.single hcall).tail hread).tail hload).tail hready

/-- The entry that an append makes of a log's entries. -/
def entryAfter (entries : List Value) (targetId : String) : Value :=
  ((newEntry plainHost plainLog entries (rootRequest targetId)).toOption).getD .null

/-- A log is opened and appended to twice: both entries are in the file, which reopens. -/
theorem durable_written : ∃ s e f, ReflTransGen (Orderly plainHost plainLog) {} s ∧
    s.appended = [e, f] ∧ reopen plainHost plainLog s.file = .ok [e, f] := by
  have hmade : ∀ {entries : List Value} {targetId : String},
      (newEntry plainHost plainLog entries (rootRequest targetId)).isOk = true →
      newEntry plainHost plainLog entries (rootRequest targetId) =
        .ok (entryAfter entries targetId) := by
    intro entries targetId hok
    obtain ⟨e, he⟩ := ok_of_isOk hok
    rw [entryAfter, he]
    rfl
  have hfirst := served (s := openedNew) (e := entryAfter [] "alice") rfl rfl
    (hmade (by decide +kernel)) (by decide +kernel) (ok_of_isOk (by decide +kernel))
  have hsecond := hfirst.trans (served (e := entryAfter [entryAfter [] "alice"] "bob") rfl rfl
    (hmade (by decide +kernel)) (by decide +kernel) (ok_of_isOk (by decide +kernel)))
  have hrun := openedNew_orderly.trans hsecond
  obtain ⟨m, hreopen, -, hread, -⟩ := durable plainHost plainLog [] _ .nil (.inl rfl) hrun
  obtain rfl := (hread (.inl rfl)).2 (by simp [LogState.serving, openedNew, Task.unwritten])
  exact ⟨_, _, _, hrun, rfl, hreopen⟩

/-- The first write fails, its entry stays in memory, and the second entry is written after nothing. -/
def failedWrite : List Event :=
  [.callOpen, .readFile 0, .resume 0, .resume 0, .callAppend (rootRequest "alice"), .fail 1,
    .callAppend (rootRequest "bob"), .write 2 .all, .settle 2, .resume 2]

/-- An entry that `append` has returned, in a file that does not reopen. -/
theorem failed_write_gap : ∃ s, ReflTransGen (Stepped plainHost plainLog) {} s ∧
    s.appended ≠ [] ∧ ∀ m, reopen plainHost plainLog s.file ≠ .ok m := by
  have hsome : (replay plainHost plainLog {} failedWrite).map (fun s =>
      (s.appended.length, (reopen plainHost plainLog s.file).isOk)) = some (1, false) := by
    decide +kernel
  obtain ⟨s, hs, hboth⟩ := Option.map_eq_some_iff.mp hsome
  obtain ⟨hlength, hok⟩ := Prod.mk.inj hboth
  refine ⟨s, run_of_replay hs, fun h => by simp [h] at hlength, fun m hm => ?_⟩
  rw [hm] at hok
  cases hok

end Truyn.Trust
