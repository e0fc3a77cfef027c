import Truyn.Dht.Isolation
import Truyn.Schemes.Tables

/-! runtime:persist | snapshots of the runtime, saved one at a time

    Who needs the state saved raises a counter and shares the flush that is under way. A flush reads
    the counter and takes its snapshot in a later turn of the event loop; a caller whose number it did
    not reach waits for another one. `Barrier` is what its callers may rely on. -/

namespace Truyn.Runtime
open Dht
open Trust (Value)

/-- `stateStore` is that a state file is configured. -/
structure Options where
  nodeId : JsString
  stateStore : Bool
  persistenceDebounceMs : ℤ
  persistenceCheckpointMs : ℤ

/-- What is saved, with the store of DHT records as it is in memory. -/
structure Data where
  sequence : ℕ
  peerRecords : List Value
  recordStore : Dht.Store

structure Snapshot where
  nodeId : JsString
  sequence : ℕ
  savedAt : ℤ
  peerRecords : List Value
  dhtRecords : List Value

/-- The promise of a flush: before its turn, in its save, over but for `finally`, and settled. -/
inductive Flush
  | waiting
  | saving (save : ℕ)
  | ended (ok : Bool)
  | settled (ok : Bool)

def Flush.current : Flush → Bool
  | .settled _ => false
  | _ => true

/-- A call of `stateStore.save`, with the number of events before it. -/
structure Save where
  generation : ℕ
  taken : ℕ
  snapshot : Snapshot
  done : Option Bool

inductive Asker
  | runtime
  | dhtStore (record : Value)

inductive Wait
  | flush (flush : ℕ)
  | resolved (result : Option Snapshot)
  | rejected

/-- A call of `persistState`, with the number of events before it. -/
structure Call where
  since : ℕ
  targetGeneration : ℕ
  asker : Asker
  wait : Wait

/-- `clock` counts the events. -/
structure Persistence where
  clock : ℕ
  data : Data
  stateReady : Bool
  closing : Bool
  requestedGeneration : ℕ
  persistedGeneration : ℕ
  maxQueueDepth : ℕ
  flushPromise : Option ℕ
  timer : Option ℤ
  firstPendingAt : Option ℤ
  lastPersistedSnapshot : Option Snapshot
  flushes : List Flush
  saves : List Save
  calls : List Call

inductive Event
  /-- The sequence of the node and the records of its peers change. -/
  | change (sequence : ℕ) (peerRecords : List Value)
  | records (turn : Store.Turn)
  | lifecycle (stateReady closing : Bool)
  | schedulePersist (now : ℤ)
  | persistState (now : ℤ)
  | dhtStore (record : Value) (now : ℤ)
  | timer
  | clearTimer
  /-- The turn of a flush comes, its save ends, its `finally` runs. -/
  | immediate (flush : ℕ) (now : ℤ)
  | saved (flush : ℕ) (ok : Bool) (now : ℤ)
  | settle (flush : ℕ) (now : ℤ)
  | resume (call : ℕ) (now : ℤ)

variable (P : Platform) (o : Options)

/-- The signatures of the records are verified again, and remembered. -/
def snapshotState (d : Data) (now : ℤ) : Data × Snapshot :=
  let (signatures, live) := verifying P now d.recordStore.signatures d.recordStore.records
  ({ d with recordStore := { d.recordStore with signatures := signatures } },
    ⟨o.nodeId, d.sequence, now, d.peerRecords, live.map Prod.snd⟩)

namespace Persistence

def new : Persistence :=
  ⟨0, ⟨0, [], .new⟩, false, false, 0, 0, 0, none, none, none, none, [], [], []⟩

variable (s : Persistence)

def requestPersist : Persistence :=
  { s with
    requestedGeneration := s.requestedGeneration + 1
    maxQueueDepth := max s.maxQueueDepth (s.requestedGeneration + 1 - s.persistedGeneration) }

def schedulePersistCheckpoint (now : ℤ) : Persistence :=
  if !o.stateStore || !s.stateReady || s.closing || s.flushPromise.isSome then s
  else if s.requestedGeneration ≤ s.persistedGeneration then
    { s with firstPendingAt := none, timer := none }
  else
    let firstPendingAt := s.firstPendingAt.getD now
    { s with
      firstPendingAt := some firstPendingAt
      timer := some (max 0 (min o.persistenceDebounceMs
        (o.persistenceCheckpointMs - (now - firstPendingAt)))) }

def ensurePersistFlush : Persistence :=
  if s.flushPromise.isSome then s
  else
    { s with
      timer := none
      flushPromise := some s.flushes.length
      flushes := s.flushes ++ [.waiting] }

def schedulePersist (now : ℤ) : Persistence :=
  if !o.stateStore || !s.stateReady || s.closing then s
  else s.requestPersist.schedulePersistCheckpoint o now

/-- One turn of the loop of `persistState`: the flush to wait for, or its result. -/
def awaitFlush (targetGeneration : ℕ) (now : ℤ) : Persistence × Wait :=
  if s.persistedGeneration < targetGeneration then
    (s.ensurePersistFlush, .flush (s.flushPromise.getD s.flushes.length))
  else
    match s.lastPersistedSnapshot with
    | some snapshot => (s, .resolved (some snapshot))
    | none =>
      let (data, snapshot) := snapshotState P o s.data now
      ({ s with data := data }, .resolved (some snapshot))

def persistState (asker : Asker) (now : ℤ) : Persistence :=
  if o.stateStore then
    let requested := { s.requestPersist with timer := none }
    let (t, wait) := requested.awaitFlush P o requested.requestedGeneration now
    { t with calls := t.calls ++ [⟨s.clock, requested.requestedGeneration, asker, wait⟩] }
  else { s with calls := s.calls ++ [⟨s.clock, 0, asker, .resolved none⟩] }

/-- The handler of `dht.store`; it answers when its call of `persistState` is resolved. -/
def dhtStore (record : Value) (now : ℤ) : Persistence :=
  match verifyDhtRecord P s.data.recordStore.signatures record now false with
  | (signatures, .error _) =>
    { s with data.recordStore := { s.data.recordStore with signatures := signatures } }
  | (signatures, .ok ()) =>
    match { s.data.recordStore with signatures := signatures }.put P record now false with
    | (store, .accepted) =>
      ({ s with data.recordStore := store }.schedulePersist o now).persistState P o
        (.dhtStore record) now
    | (store, _) => { s with data.recordStore := store }

def immediate (flush : ℕ) (now : ℤ) : Persistence :=
  match s.flushes[flush]? with
  | some .waiting =>
    if s.requestedGeneration ≤ s.persistedGeneration then
      { s with flushes := s.flushes.set flush (.ended true) }
    else
      let (data, snapshot) := snapshotState P o s.data now
      { s with
        data := data
        saves := s.saves ++ [⟨s.requestedGeneration, s.clock, snapshot, none⟩]
        flushes := s.flushes.set flush (.saving s.saves.length) }
  | _ => s

/-- The promise of the flush is still there when the checkpoint is scheduled. -/
def saved (flush : ℕ) (ok : Bool) (now : ℤ) : Persistence :=
  match s.flushes[flush]? with
  | some (.saving k) =>
    match s.saves[k]? with
    | some save =>
      let t := { s with
        saves := s.saves.set k { save with done := some ok }
        flushes := s.flushes.set flush (.ended ok) }
      if !ok then t
      else
        let t := { t with
          lastPersistedSnapshot := some save.snapshot, persistedGeneration := save.generation }
        if t.requestedGeneration ≤ t.persistedGeneration then { t with firstPendingAt := none }
        else if t.stateReady && !t.closing then
          { t with firstPendingAt := some now }.schedulePersistCheckpoint o now
        else t
    | none => s
  | _ => s

def settle (flush : ℕ) (now : ℤ) : Persistence :=
  match s.flushes[flush]? with
  | some (.ended ok) =>
    let t := { s with flushPromise := none, flushes := s.flushes.set flush (.settled ok) }
    if t.persistedGeneration < t.requestedGeneration && t.stateReady && !t.closing then
      t.schedulePersistCheckpoint o now
    else t
  | _ => s

def resume (call : ℕ) (now : ℤ) : Persistence :=
  match s.calls[call]? with
  | some ⟨since, targetGeneration, asker, .flush flush⟩ =>
    match s.flushes[flush]? with
    | some (.settled true) =>
      let (t, wait) := s.awaitFlush P o targetGeneration now
      { t with calls := t.calls.set call ⟨since, targetGeneration, asker, wait⟩ }
    | some (.settled false) =>
      { s with calls := s.calls.set call ⟨since, targetGeneration, asker, .rejected⟩ }
    | _ => s
  | _ => s

def act : Event → Persistence
  | .change sequence peerRecords =>
    { s with data := { s.data with sequence := sequence, peerRecords := peerRecords } }
  | .records turn => { s with data.recordStore := s.data.recordStore.turn P turn }
  | .lifecycle stateReady closing => { s with stateReady := stateReady, closing := closing }
  | .schedulePersist now => s.schedulePersist o now
  | .persistState now => s.persistState P o .runtime now
  | .dhtStore record now => s.dhtStore P o record now
  | .timer => if s.timer.isSome then { s with timer := none }.ensurePersistFlush else s
  | .clearTimer => { s with timer := none }
  | .immediate flush now => s.immediate P o flush now
  | .saved flush ok now => s.saved o flush ok now
  | .settle flush now => s.settle o flush now
  | .resume call now => s.resume P o call now

def step (e : Event) : Persistence := { s.act P o e with clock := s.clock + 1 }

def run (es : List Event) : Persistence := es.foldl (step P o) new

variable {P o s} {now : ℤ}

/-! ### What the parts change -/

theorem checkpoint_eq (now : ℤ) (s : Persistence) : ∃ firstPendingAt timer,
    s.schedulePersistCheckpoint o now =
      { s with firstPendingAt := firstPendingAt, timer := timer } := by
  simp only [schedulePersistCheckpoint]
  split
  · exact ⟨_, _, rfl⟩
  · split <;> exact ⟨_, _, rfl⟩

theorem schedulePersist_eq (now : ℤ) (s : Persistence) : ∃ requested depth firstPendingAt timer,
    s.schedulePersist o now = { s with
      requestedGeneration := requested
      maxQueueDepth := depth
      firstPendingAt := firstPendingAt
      timer := timer } ∧ s.requestedGeneration ≤ requested := by
  simp only [schedulePersist]
  split
  · exact ⟨_, _, _, _, rfl, le_rfl⟩
  · obtain ⟨first, timer, heq⟩ := checkpoint_eq (o := o) now s.requestPersist
    exact ⟨_, _, first, timer, heq, Nat.le_succ _⟩

theorem snapshotState_records (d : Data) :
    (snapshotState P o d now).1.recordStore.records = d.recordStore.records := rfl

/-- Either the number is not reached, and there is a flush, or only signatures are remembered. -/
theorem awaitFlush_cases (now : ℤ) (s : Persistence) (targetGeneration : ℕ) :
    (∃ f, s.awaitFlush P o targetGeneration now = (s.ensurePersistFlush, .flush f)) ∨
    targetGeneration ≤ s.persistedGeneration ∧ ∃ data result,
      s.awaitFlush P o targetGeneration now = ({ s with data := data }, .resolved result) ∧
      data.recordStore.records = s.data.recordStore.records := by
  simp only [awaitFlush]
  split
  · exact .inl ⟨_, rfl⟩
  · rename_i hreached
    refine .inr ⟨Nat.not_lt.mp hreached, ?_⟩
    split
    · exact ⟨_, _, rfl, rfl⟩
    · exact ⟨_, _, rfl, snapshotState_records s.data⟩

/-! ### Flushes and saves -/

/-- There is one flush at a time, it belongs to the save in flight, and a caller whose call is
    resolved has been reached by a save that is over. -/
structure Inv (o : Options) (s : Persistence) : Prop where
  promise : ∀ f x, s.flushes[f]? = some x → x.current = true → s.flushPromise = some f
  inFlight : ∀ k save, s.saves[k]? = some save → save.done = none →
    ∃ f : ℕ, s.flushes[f]? = some (.saving k)
  saving : ∀ (f k : ℕ), s.flushes[f]? = some (.saving k) →
    ∃ save, s.saves[k]? = some save ∧ save.done = none ∧
      s.persistedGeneration ≤ save.generation
  persisted : s.persistedGeneration = 0 ∨
    ∃ save ∈ s.saves, save.done = some true ∧ save.generation = s.persistedGeneration
  resolved : o.stateStore = true → ∀ call ∈ s.calls, ∀ result, call.wait = .resolved result →
    call.targetGeneration ≤ s.persistedGeneration

theorem inv_new : Inv o new where
  promise := by simp [new]
  inFlight := by simp [new]
  saving := by simp [new]
  persisted := .inl rfl
  resolved := by simp [new]

theorem Inv.checkpoint (h : Inv o s) : Inv o (s.schedulePersistCheckpoint o now) := by
  obtain ⟨first, timer, heq⟩ := checkpoint_eq (o := o) now s
  rw [heq]
  exact { h with }

theorem Inv.schedulePersist (h : Inv o s) : Inv o (s.schedulePersist o now) := by
  obtain ⟨requested, depth, first, timer, heq, -⟩ := schedulePersist_eq (o := o) now s
  rw [heq]
  exact { h with }

theorem Inv.ensurePersistFlush (h : Inv o s) : Inv o s.ensurePersistFlush := by
  simp only [Persistence.ensurePersistFlush]
  split
  · exact h
  · rename_i hnone
    refine ⟨fun f x hf hx => ?_, fun k save hk hdone => ?_, fun f k hf => ?_, h.persisted, h.resolved⟩
    · rcases Tables.get_push hf with hf | ⟨rfl, -⟩
      · simp [h.promise f x hf hx] at hnone
      · rfl
    · obtain ⟨f, hf⟩ := h.inFlight k save hk hdone
      exact ⟨f, Tables.get_push_old hf⟩
    · rcases Tables.get_push hf with hf | ⟨-, hf⟩
      · exact h.saving f k hf
      · cases hf

theorem Inv.awaitFlush (h : Inv o s) (targetGeneration : ℕ) :
    Inv o (s.awaitFlush P o targetGeneration now).1 := by
  rcases awaitFlush_cases (P := P) (o := o) now s targetGeneration with
    ⟨f, heq⟩ | ⟨-, data, result, heq, -⟩
  · rw [heq]
    exact h.ensurePersistFlush
  · rw [heq]
    exact { h with }

theorem ensurePersistFlush_eq (s : Persistence) : ∃ timer flushPromise flushes,
    s.ensurePersistFlush =
      { s with timer := timer, flushPromise := flushPromise, flushes := flushes } := by
  simp only [ensurePersistFlush]
  split <;> exact ⟨_, _, _, rfl⟩

/-- The loop changes no call and no save, and gives a result where the number is reached. -/
theorem awaitFlush_frame (now : ℤ) (s : Persistence) (targetGeneration : ℕ) :
    (s.awaitFlush P o targetGeneration now).1.calls = s.calls ∧
    (s.awaitFlush P o targetGeneration now).1.saves = s.saves ∧
    (s.awaitFlush P o targetGeneration now).1.persistedGeneration = s.persistedGeneration ∧
    (s.awaitFlush P o targetGeneration now).1.requestedGeneration = s.requestedGeneration ∧
    (s.awaitFlush P o targetGeneration now).1.data.recordStore.records = s.data.recordStore.records ∧
    ∀ result, (s.awaitFlush P o targetGeneration now).2 = .resolved result →
      targetGeneration ≤ s.persistedGeneration := by
  rcases awaitFlush_cases (P := P) (o := o) now s targetGeneration with
    ⟨f, heq⟩ | ⟨hreached, data, result, heq, hrecords⟩
  · obtain ⟨timer, promise, flushes, hensure⟩ := ensurePersistFlush_eq s
    rw [heq, hensure]
    exact ⟨rfl, rfl, rfl, rfl, rfl, fun _ h => by cases h⟩
  · rw [heq]
    exact ⟨rfl, rfl, rfl, rfl, hrecords, fun _ _ => hreached⟩

variable {call : Call} {t : Persistence} {e : Event} {i : ℕ}

/-- A call is added, with what its wait promises. -/
theorem Inv.push (h : Inv o s) (hcall : o.stateStore = true → ∀ result,
    call.wait = .resolved result → call.targetGeneration ≤ s.persistedGeneration) :
    Inv o { s with calls := s.calls ++ [call] } := by
  refine { h with resolved := fun hstored c hc result hresult => ?_ }
  rcases List.mem_append.mp hc with hc | hc
  · exact h.resolved hstored c hc result hresult
  · obtain rfl := List.mem_singleton.mp hc
    exact hcall hstored result hresult

theorem Inv.persistState (h : Inv o s) (asker : Asker) : Inv o (s.persistState P o asker now) := by
  simp only [Persistence.persistState]
  split
  · have hrequested : Inv o { s.requestPersist with timer := none } :=
      { h with }
    obtain ⟨-, -, hpersisted, -, -, hresult⟩ := awaitFlush_frame (P := P) (o := o) now
      { s.requestPersist with timer := none } (s.requestedGeneration + 1)
    exact (hrequested.awaitFlush _).push fun _ result hwait =>
      (hresult result hwait).trans hpersisted.ge
  · rename_i hstored
    exact h.push fun hs => absurd hs hstored

theorem Inv.data (h : Inv o s) (data : Data) : Inv o { s with data := data } :=
  { h with }

theorem Inv.dhtStore (h : Inv o s) (record : Value) : Inv o (s.dhtStore P o record now) := by
  simp only [Persistence.dhtStore]
  split
  · exact h.data _
  · split
    · exact ((h.data _).schedulePersist).persistState _
    · exact h.data _

/-- Two flushes that are under way are one. -/
theorem Inv.one (h : Inv o s) {f g : ℕ} {x y : Flush} (hf : s.flushes[f]? = some x)
    (hg : s.flushes[g]? = some y) (hx : x.current = true) (hy : y.current = true) : f = g :=
  Option.some.inj ((h.promise f x hf hx).symm.trans (h.promise g y hg hy))

theorem Inv.immediate (h : Inv o s) (f : ℕ) : Inv o (s.immediate P o f now) := by
  simp only [Persistence.immediate]
  split
  · rename_i hf
    have hpromise := h.promise f _ hf rfl
    have hnot : ∀ g k : ℕ, s.flushes[g]? ≠ some (.saving k) := by
      intro g k hg
      obtain rfl := h.one hf hg rfl rfl
      rw [hf] at hg
      cases hg
    split
    · refine ⟨fun g x hg hx => ?_, fun k save hk hdone => ?_, fun g k hg => ?_, h.persisted,
        h.resolved⟩
      · rcases Tables.get_write hg with ⟨rfl, -⟩ | ⟨-, hg⟩
        · exact hpromise
        · exact h.promise g x hg hx
      · obtain ⟨g, hg⟩ := h.inFlight k save hk hdone
        exact absurd hg (hnot g k)
      · rcases Tables.get_write hg with ⟨-, hg⟩ | ⟨-, hg⟩
        · cases hg
        · exact absurd hg (hnot g k)
    · rename_i hbehind
      refine ⟨fun g x hg hx => ?_, fun k save hk hdone => ?_, fun g k hg => ?_, ?_, h.resolved⟩
      · rcases Tables.get_write hg with ⟨rfl, -⟩ | ⟨-, hg⟩
        · exact hpromise
        · exact h.promise g x hg hx
      · rcases Tables.get_push hk with hk | ⟨rfl, -⟩
        · obtain ⟨g, hg⟩ := h.inFlight k save hk hdone
          exact absurd hg (hnot g k)
        · exact ⟨f, Tables.get_write_self hf⟩
      · rcases Tables.get_write hg with ⟨-, hk⟩ | ⟨-, hg⟩
        · obtain rfl := Flush.saving.inj hk
          exact ⟨_, List.getElem?_concat_length, rfl, (Nat.not_le.mp hbehind).le⟩
        · exact absurd hg (hnot g k)
      · exact h.persisted.imp_right fun ⟨save, hsave, hdone⟩ =>
          ⟨save, List.mem_append_left _ hsave, hdone⟩
  · exact h

/-- The save of a flush is over: no other is in flight, and the number goes up if it is done. -/
theorem Inv.saved (h : Inv o s) (f : ℕ) (ok : Bool) :
    Inv o (s.saved o f ok now) ∧ s.persistedGeneration ≤ (s.saved o f ok now).persistedGeneration := by
  simp only [Persistence.saved]
  split
  · rename_i k hf
    split
    · rename_i save hk
      have hone : ∀ g j : ℕ, s.flushes[g]? = some (.saving j) → g = f ∧ j = k := by
        intro g j hg
        obtain rfl := h.one hg hf rfl rfl
        rw [hf] at hg
        exact ⟨rfl, (Flush.saving.inj (Option.some.inj hg)).symm⟩
      have hpromise : ∀ g x, (s.flushes.set f (.ended ok))[g]? = some x → x.current = true →
          s.flushPromise = some g := by
        intro g x hg hx
        rcases Tables.get_write hg with ⟨rfl, -⟩ | ⟨-, hg⟩
        · exact h.promise _ _ hf rfl
        · exact h.promise g x hg hx
      have hflight : ∀ j other, (s.saves.set k { save with done := some ok })[j]? = some other →
          other.done = none → ∃ g : ℕ, (s.flushes.set f (.ended ok))[g]? = some (.saving j) := by
        intro j other hj hdone
        rcases Tables.get_write hj with ⟨-, rfl⟩ | ⟨hne, hj⟩
        · cases hdone
        · obtain ⟨g, hg⟩ := h.inFlight j other hj hdone
          exact absurd (hone g j hg).2.symm hne
      have hsaving : ∀ g j : ℕ, (s.flushes.set f (.ended ok))[g]? ≠ some (.saving j) := by
        intro g j hg
        rcases Tables.get_write hg with ⟨-, hg⟩ | ⟨hne, hg⟩
        · cases hg
        · exact hne (hone g j hg).1.symm
      obtain ⟨save', hk', hnone, hle⟩ := h.saving f k hf
      cases hk.symm.trans hk'
      cases ok with
      | false =>
        refine ⟨⟨hpromise, hflight, fun g j hg => absurd hg (hsaving g j), ?_, h.resolved⟩, le_rfl⟩
        refine h.persisted.imp_right fun ⟨other, hother, hdone, hgeneration⟩ => ?_
        obtain ⟨j, hj⟩ := List.mem_iff_getElem?.mp hother
        refine ⟨other, List.mem_of_getElem? (Tables.get_write_other ?_ hj), hdone,
          hgeneration⟩
        rintro rfl
        cases hk.symm.trans hj
        rw [hnone] at hdone
        cases hdone
      | true =>
        have hkept : Inv o { s with
            saves := s.saves.set k { save with done := some true }
            flushes := s.flushes.set f (.ended true)
            lastPersistedSnapshot := some save.snapshot
            persistedGeneration := save.generation } :=
          ⟨hpromise, hflight, fun g j hg => absurd hg (hsaving g j),
            .inr ⟨_, List.mem_of_getElem? (Tables.get_write_self hk), rfl, rfl⟩,
            fun hstored call hcall result hresult =>
              (h.resolved hstored call hcall result hresult).trans hle⟩
        simp only [Bool.not_true, Bool.false_eq_true, if_false]
        split
        · exact ⟨{ hkept with }, hle⟩
        · split
          · obtain ⟨first, timer, heq⟩ := checkpoint_eq (o := o) now { s with
              saves := s.saves.set k { save with done := some true }
              flushes := s.flushes.set f (.ended true)
              lastPersistedSnapshot := some save.snapshot
              persistedGeneration := save.generation
              firstPendingAt := some now }
            rw [heq]
            exact ⟨{ hkept with },
              hle⟩
          · exact ⟨hkept, hle⟩
    · exact ⟨h, le_rfl⟩
  · exact ⟨h, le_rfl⟩

theorem Inv.settle (h : Inv o s) (f : ℕ) : Inv o (s.settle o f now) := by
  simp only [Persistence.settle]
  split
  · rename_i ok hf
    have hgone : ∀ (g : ℕ) (x : Flush), (s.flushes.set f (.settled ok))[g]? = some x → x.current = true →
        False := by
      intro g x hg hx
      rcases Tables.get_write hg with ⟨-, rfl⟩ | ⟨hne, hg⟩
      · cases hx
      · exact hne (h.one hf hg rfl hx)
    have hsettled : Inv o { s with
        flushPromise := none, flushes := s.flushes.set f (.settled ok) } := by
      refine ⟨fun g x hg hx => (hgone g x hg hx).elim, fun k save hk hdone => ?_,
        fun g k hg => (hgone g _ hg rfl).elim, h.persisted, h.resolved⟩
      obtain ⟨g, hg⟩ := h.inFlight k save hk hdone
      obtain rfl := h.one hf hg rfl rfl
      rw [hf] at hg
      cases hg
    split
    · exact hsettled.checkpoint
    · exact hsettled
  · exact h

/-- A call is written over, with what its wait promises. -/
theorem Inv.write (h : Inv o s) {i : ℕ} (hcall : o.stateStore = true → ∀ result,
    call.wait = .resolved result → call.targetGeneration ≤ s.persistedGeneration) :
    Inv o { s with calls := s.calls.set i call } := by
  refine { h with resolved := fun hstored c hc result hresult => ?_ }
  rcases Tables.mem_write hc with rfl | hc
  · exact hcall hstored result hresult
  · exact h.resolved hstored c hc result hresult

theorem Inv.resume (h : Inv o s) (i : ℕ) : Inv o (s.resume P o i now) := by
  simp only [Persistence.resume]
  split
  · rename_i since targetGeneration asker f hi
    split
    · obtain ⟨hcalls, -, hpersisted, -, -, hresult⟩ :=
        awaitFlush_frame (P := P) (o := o) now s targetGeneration
      exact (h.awaitFlush targetGeneration).write fun _ result hwait =>
        (hresult result hwait).trans hpersisted.ge
    · exact h.write fun _ _ hwait => by cases hwait
    · exact h
  · exact h

theorem Inv.act (h : Inv o s) (e : Event) : Inv o (s.act P o e) := by
  cases e with
  | change sequence peerRecords => exact h.data _
  | records turn => exact h.data _
  | lifecycle stateReady closing =>
    exact { h with }
  | schedulePersist now => exact h.schedulePersist
  | persistState now => exact h.persistState _
  | dhtStore record now => exact h.dhtStore record
  | timer =>
    simp only [Persistence.act]
    split
    · exact Inv.ensurePersistFlush { h with }
    · exact h
  | clearTimer => exact { h with }
  | immediate f now => exact h.immediate f
  | saved f ok now => exact (h.saved f ok).1
  | settle f now => exact h.settle f
  | resume i now => exact h.resume i

theorem Inv.step (h : Inv o s) (e : Event) : Inv o (s.step P o e) := by
  have hact := h.act (P := P) e
  exact { hact with }

/-! ### A record that was put -/

section
variable {record : Value} {store : Store}

/-- Another record has its place. -/
def Replaced (P : Platform) (store : Store) (record : Value) : Prop :=
  ∃ other ≠ record, keyOf P other = keyOf P record ∧ (keyOf P record, other) ∈ store.records

/-- At this time it is not a record that verifies, whatever signatures are remembered. -/
def Expired (P : Platform) (record : Value) (now : ℤ) : Prop :=
  ∃ verified, ¬Verifies P verified record now false

theorem verifying_keeps (now : ℤ) (verified : List JsString) {r : JsString × Value}
    {records : List (JsString × Value)} (h : r ∈ records) :
    r ∈ (verifying P now verified records).2 ∨ Expired P r.2 now := by
  induction records generalizing verified with
  | nil => cases h
  | cons q records ih =>
    rw [verifying]
    generalize hresult : verifyDhtRecord P verified q.2 now false = result
    obtain ⟨signatures, verdict⟩ := result
    rcases List.mem_cons.mp h with rfl | h
    · cases verdict with
      | ok => exact .inl List.mem_cons_self
      | error reason =>
        refine .inr ⟨verified, fun hok => ?_⟩
        rw [Verifies, hresult] at hok
        cases hok
    · rcases ih signatures h with hmem | hexpired
      · cases verdict with
        | ok => exact .inl (List.mem_cons_of_mem _ hmem)
        | error reason => exact .inl hmem
      · exact .inr hexpired

theorem put_keeps (store : Store) (h : (keyOf P record, record) ∈ store.records) (r : Value)
    (now : ℤ) (allowExpired : Bool) :
    (keyOf P record, record) ∈ (store.put P r now allowExpired).1.records ∨
      Replaced P (store.put P r now allowExpired).1 record := by
  rcases put_cases (P := P) (s := store) r now allowExpired with
    ⟨-, hrecords⟩ | ⟨-, -, hrecords, -⟩
  · exact .inl (hrecords ▸ h)
  · rw [Replaced, hrecords]
    by_cases hkey : keyOf P r = keyOf P record
    · by_cases hsame : r = record
      · rw [hsame]
        exact .inl Maps.mem_set_self
      · exact .inr ⟨r, hsame, hkey, hkey ▸ Maps.mem_set_self⟩
    · exact .inl (Maps.mem_set_of_ne h fun heq => hkey heq.symm)

theorem put_accepted {t : Store} {allowExpired : Bool}
    (h : store.put P record now allowExpired = (t, .accepted)) :
    (keyOf P record, record) ∈ t.records := by
  rcases put_cases (P := P) (s := store) record now allowExpired with ⟨hno, -⟩ | ⟨-, -, hrecords, -⟩
  · rw [h] at hno
    cases hno
  · rw [h] at hrecords
    exact hrecords ▸ Maps.mem_set_self

end

/-! ### What an event does -/

/-- Where a save comes from: it was there, or its snapshot is of this moment. -/
def SaveFrom (P : Platform) (o : Options) (s : Persistence) (save : Save) : Prop :=
  (∃ old ∈ s.saves, save.generation = old.generation ∧ save.taken = old.taken ∧
    save.snapshot = old.snapshot) ∨
  save.generation = s.requestedGeneration ∧ save.taken = s.clock ∧
    save.snapshot = (snapshotState P o s.data save.snapshot.savedAt).2

/-- Where a call comes from: it was there, or it is of this moment, and a record it is for is there. -/
def CallFrom (P : Platform) (o : Options) (s t : Persistence) (call : Call) : Prop :=
  (∃ old ∈ s.calls, call.since = old.since ∧ call.targetGeneration = old.targetGeneration ∧
    call.asker = old.asker) ∨
  call.since = s.clock ∧ (o.stateStore = true → s.requestedGeneration < call.targetGeneration) ∧
    ∀ record, call.asker = .dhtStore record →
      (keyOf P record, record) ∈ t.data.recordStore.records

/-- A record leaves the store: for another one, or when a sweep finds it expired. -/
def Lost (P : Platform) (t : Persistence) (e : Event) (record : Value) : Prop :=
  Replaced P t.data.recordStore record ∨ ∃ now, e = .records (.sweep now) ∧ Expired P record now

structure Moves (P : Platform) (o : Options) (s t : Persistence) (e : Event) : Prop where
  requested : s.requestedGeneration ≤ t.requestedGeneration
  persisted : t.persistedGeneration = s.persistedGeneration ∨ ∃ f ok now, e = .saved f ok now
  saves : ∀ save ∈ t.saves, SaveFrom P o s save
  calls : ∀ call ∈ t.calls, CallFrom P o s t call
  records : ∀ record, (keyOf P record, record) ∈ s.data.recordStore.records →
    (keyOf P record, record) ∈ t.data.recordStore.records ∨ Lost P t e record

theorem SaveFrom.old {save : Save} (h : save ∈ s.saves) : SaveFrom P o s save :=
  .inl ⟨save, h, rfl, rfl, rfl⟩

theorem CallFrom.old (h : call ∈ s.calls) : CallFrom P o s t call :=
  .inl ⟨call, h, rfl, rfl, rfl⟩

/-- Neither saves, calls nor records. -/
theorem Moves.aside (hrequested : s.requestedGeneration ≤ t.requestedGeneration)
    (hpersisted : t.persistedGeneration = s.persistedGeneration) (hsaves : t.saves = s.saves)
    (hcalls : t.calls = s.calls)
    (hrecords : t.data.recordStore.records = s.data.recordStore.records) : Moves P o s t e where
  requested := hrequested
  persisted := .inl hpersisted
  saves := fun _ hsave => .old (hsaves ▸ hsave)
  calls := fun _ hcall => .old (hcalls ▸ hcall)
  records := fun _ h => .inl (hrecords ▸ h)

theorem moves_records (s : Persistence) (turn : Store.Turn) :
    Moves P o s (s.act P o (.records turn)) (.records turn) where
  requested := le_rfl
  persisted := .inl rfl
  saves := fun _ h => .old h
  calls := fun _ h => .old h
  records := by
    intro record h
    cases turn with
    | put r now allowExpired => exact (put_keeps _ h r now allowExpired).imp_right .inl
    | sweep now =>
      exact (verifying_keeps now _ h).imp_right fun hexpired => .inr ⟨now, rfl, hexpired⟩
    | get nameSpace key now => exact .inl h
    | verify r now allowExpired => exact .inl h

theorem persistState_log (now : ℤ) (s : Persistence) (asker : Asker) :
    (s.persistState P o asker now).saves = s.saves ∧
    (s.persistState P o asker now).persistedGeneration = s.persistedGeneration ∧
    s.requestedGeneration ≤ (s.persistState P o asker now).requestedGeneration ∧
    (s.persistState P o asker now).data.recordStore.records = s.data.recordStore.records ∧
    ∃ call, (s.persistState P o asker now).calls = s.calls ++ [call] ∧ call.since = s.clock ∧
      call.asker = asker ∧ (o.stateStore = true → s.requestedGeneration < call.targetGeneration) := by
  simp only [Persistence.persistState]
  split
  · obtain ⟨hcalls, hsaves, hpersisted, hrequested, hrecords, -⟩ :=
      awaitFlush_frame (P := P) (o := o) now { s.requestPersist with timer := none }
        (s.requestedGeneration + 1)
    exact ⟨hsaves, hpersisted, (Nat.le_succ _).trans hrequested.ge, hrecords, _,
      congrArg (· ++ _) hcalls, rfl, rfl, fun _ => Nat.lt_succ_self _⟩
  · rename_i hstored
    exact ⟨rfl, rfl, le_rfl, rfl, _, rfl, rfl, rfl, fun h => absurd h hstored⟩

/-- The state is asked for after `t`, which has the calls and saves of `s`. -/
theorem moves_persistState (now : ℤ) (asker : Asker) (h : Moves P o s t e)
    (hclock : t.clock = s.clock) (hsaves : t.saves = s.saves) (hcalls : t.calls = s.calls)
    (hrecord : ∀ record, asker = .dhtStore record →
      (keyOf P record, record) ∈ t.data.recordStore.records) :
    Moves P o s (t.persistState P o asker now) e := by
  obtain ⟨hsaves', hpersisted, hrequested, hrecords, call, hcalls', hsince, hasker, htarget⟩ :=
    persistState_log (P := P) (o := o) now t asker
  refine ⟨h.requested.trans hrequested, hpersisted ▸ h.persisted, fun save hsave => ?_,
    fun c hc => ?_, fun record hmem => ?_⟩
  · exact .old (hsaves ▸ hsaves' ▸ hsave)
  · rw [hcalls', hcalls] at hc
    rcases List.mem_append.mp hc with hc | hc
    · exact .old hc
    · obtain rfl := List.mem_singleton.mp hc
      refine .inr ⟨hsince.trans hclock, fun hstored => h.requested.trans_lt (htarget hstored),
        fun record heq => ?_⟩
      rw [hrecords]
      exact hrecord record (hasker.symm.trans heq)
  · rw [Lost, Replaced, hrecords]
    exact h.records record hmem

theorem moves_dhtStore (now : ℤ) (s : Persistence) (record : Value) :
    Moves P o s (s.dhtStore P o record now) (.dhtStore record now) := by
  simp only [Persistence.dhtStore]
  split
  · exact .aside le_rfl rfl rfl rfl rfl
  · rename_i signatures hverified
    have hkeeps := fun other (h : (keyOf P other, other) ∈ s.data.recordStore.records) =>
      put_keeps { s.data.recordStore with signatures := signatures } h record now false
    split
    · rename_i store hput
      rw [hput] at hkeeps
      obtain ⟨requested, depth, first, timer, heq, hle⟩ := schedulePersist_eq (o := o) now
        { s with data := { s.data with recordStore := store } }
      rw [heq]
      refine moves_persistState now _ ⟨hle, .inl rfl, fun _ h => .old h, fun _ h => .old h,
        fun other h => (hkeeps other h).imp_right .inl⟩ rfl rfl rfl ?_
      rintro _ ⟨⟩
      exact put_accepted hput
    · rename_i store verdict hverdict hput
      rw [hput] at hkeeps
      exact ⟨le_rfl, .inl rfl, fun _ h => .old h, fun _ h => .old h,
        fun other h => (hkeeps other h).imp_right .inl⟩

theorem moves_resume (now : ℤ) (s : Persistence) (i : ℕ) :
    Moves P o s (s.resume P o i now) (.resume i now) := by
  simp only [Persistence.resume]
  split
  · rename_i since targetGeneration asker f hi
    have hold : (⟨since, targetGeneration, asker, .flush f⟩ : Call) ∈ s.calls :=
      List.mem_of_getElem? hi
    have hwrite : ∀ wait, ∀ call ∈ s.calls.set i ⟨since, targetGeneration, asker, wait⟩,
        ∀ t, CallFrom P o s t call := by
      intro wait call hcall t
      rcases Tables.mem_write hcall with rfl | hcall
      · exact .inl ⟨_, hold, rfl, rfl, rfl⟩
      · exact .old hcall
    split
    · obtain ⟨hcalls, hsaves, hpersisted, hrequested, hrecords, -⟩ :=
        awaitFlush_frame (P := P) (o := o) now s targetGeneration
      refine ⟨hrequested.ge, .inl hpersisted, fun save hsave => .old (hsaves ▸ hsave),
        fun call hcall => hwrite _ call (hcalls ▸ hcall) _, fun record h => .inl (hrecords ▸ h)⟩
    · exact ⟨le_rfl, .inl rfl, fun _ h => .old h, fun call hcall => hwrite _ call hcall _,
        fun _ h => .inl h⟩
    · exact .aside le_rfl rfl rfl rfl rfl
  · exact .aside le_rfl rfl rfl rfl rfl

theorem moves_immediate (now : ℤ) (s : Persistence) (f : ℕ) :
    Moves P o s (s.immediate P o f now) (.immediate f now) := by
  simp only [Persistence.immediate]
  split
  · split
    · exact .aside le_rfl rfl rfl rfl rfl
    · refine ⟨le_rfl, .inl rfl, fun save hsave => ?_, fun _ h => .old h, fun _ h => .inl h⟩
      rcases List.mem_append.mp hsave with hsave | hsave
      · exact .old hsave
      · obtain rfl := List.mem_singleton.mp hsave
        exact .inr ⟨rfl, rfl, rfl⟩
  · exact .aside le_rfl rfl rfl rfl rfl

/-- The end of a save changes no call and no data, and of the saves only whether they are done. -/
theorem moves_saved (now : ℤ) (s : Persistence) (f : ℕ) (ok : Bool) :
    Moves P o s (s.saved o f ok now) (.saved f ok now) := by
  simp only [Persistence.saved]
  split
  · rename_i k hf
    split
    · rename_i old hk
      have hsaves : ∀ save ∈ s.saves.set k { old with done := some ok }, SaveFrom P o s save := by
        intro save hsave
        rcases Tables.mem_write hsave with rfl | hsave
        · exact .inl ⟨old, List.mem_of_getElem? hk, rfl, rfl, rfl⟩
        · exact .old hsave
      have hmoves : ∀ t : Persistence, t.requestedGeneration = s.requestedGeneration →
          t.saves = s.saves.set k { old with done := some ok } → t.calls = s.calls →
          t.data = s.data → Moves P o s t (.saved f ok now) := fun t hrequested heq hcalls hdata =>
        ⟨hrequested.ge, .inr ⟨f, ok, now, rfl⟩, fun save hsave => hsaves save (heq ▸ hsave),
          fun _ h => .old (hcalls ▸ h), fun _ h => .inl (hdata ▸ h)⟩
      cases ok with
      | false => exact hmoves _ rfl rfl rfl rfl
      | true =>
        obtain ⟨first, timer, heq⟩ := checkpoint_eq (o := o) now { s with
          saves := s.saves.set k { old with done := some true }
          flushes := s.flushes.set f (.ended true)
          lastPersistedSnapshot := some old.snapshot
          persistedGeneration := old.generation
          firstPendingAt := some now }
        simp only [Bool.not_true, Bool.false_eq_true, if_false, heq]
        split
        · exact hmoves _ rfl rfl rfl rfl
        · split <;> exact hmoves _ rfl rfl rfl rfl
    · exact .aside le_rfl rfl rfl rfl rfl
  · exact .aside le_rfl rfl rfl rfl rfl

theorem moves_settle (now : ℤ) (s : Persistence) (f : ℕ) :
    Moves P o s (s.settle o f now) (.settle f now) := by
  simp only [Persistence.settle]
  split
  · rename_i ok hf
    obtain ⟨first, timer, heq⟩ := checkpoint_eq (o := o) now
      { s with flushPromise := none, flushes := s.flushes.set f (.settled ok) }
    rw [heq]
    split <;> exact .aside le_rfl rfl rfl rfl rfl
  · exact .aside le_rfl rfl rfl rfl rfl

theorem moves_act (s : Persistence) (e : Event) : Moves P o s (s.act P o e) e := by
  cases e with
  | change sequence peerRecords => exact .aside le_rfl rfl rfl rfl rfl
  | records turn => exact moves_records s turn
  | lifecycle stateReady closing => exact .aside le_rfl rfl rfl rfl rfl
  | schedulePersist now =>
    obtain ⟨requested, depth, first, timer, heq, hle⟩ := schedulePersist_eq (o := o) now s
    rw [Persistence.act, heq]
    exact .aside hle rfl rfl rfl rfl
  | persistState now =>
    exact moves_persistState now .runtime (.aside le_rfl rfl rfl rfl rfl) rfl rfl rfl
      fun record h => by cases h
  | dhtStore record now => exact moves_dhtStore now s record
  | timer =>
    obtain ⟨timer, promise, flushes, heq⟩ := ensurePersistFlush_eq { s with timer := none }
    simp only [Persistence.act, heq]
    split <;> exact .aside le_rfl rfl rfl rfl rfl
  | clearTimer => exact .aside le_rfl rfl rfl rfl rfl
  | immediate f now => exact moves_immediate now s f
  | saved f ok now => exact moves_saved now s f ok
  | settle f now => exact moves_settle now s f
  | resume i now => exact moves_resume now s i

/-! ### Runs -/

variable (P o) in
/-- The snapshot of the save was taken after the call, of the state of that moment. -/
def TakenAfter (es : List Event) (call : Call) (save : Save) : Prop :=
  call.since < save.taken ∧ save.taken < es.length ∧
    save.snapshot = (snapshotState P o (run P o (es.take save.taken)).data save.snapshot.savedAt).2

variable (P o) in
/-- The record is in the snapshot, or it was lost before, or it has expired. -/
def Contained (es : List Event) (call : Call) (save : Save) (record : Value) : Prop :=
  record ∈ save.snapshot.dhtRecords ∨ Expired P record save.snapshot.savedAt ∨
    ∃ k e, call.since < k ∧ k < save.taken ∧ es[k]? = some e ∧
      Lost P (run P o (es.take (k + 1))) e record

variable (P o) in
/-- What the callers of `persistState` may rely on, where a state file is configured. -/
structure Barrier (es : List Event) : Prop where
  monotone : ∀ later,
    (run P o es).persistedGeneration ≤ (run P o (es ++ later)).persistedGeneration
  single : ∀ (k j : ℕ) (save other : Save), (run P o es).saves[k]? = some save →
    (run P o es).saves[j]? = some other → save.done = none → other.done = none → k = j
  durable : o.stateStore = true → ∀ call ∈ (run P o es).calls, ∀ result,
    call.wait = .resolved result → ∃ save ∈ (run P o es).saves, save.done = some true ∧
      TakenAfter P o es call save ∧
      ∀ record, call.asker = .dhtStore record → Contained P o es call save record

variable {es : List Event}

theorem run_concat (es : List Event) (e : Event) :
    run P o (es ++ [e]) = (run P o es).step P o e := by
  rw [run, run, List.foldl_concat]

theorem inv_run (es : List Event) : Inv o (run P o es) := by
  induction es using List.reverseRecOn with
  | nil => exact inv_new
  | append_singleton es e ih =>
    rw [run_concat]
    exact ih.step e

theorem run_clock (es : List Event) : (run P o es).clock = es.length := by
  induction es using List.reverseRecOn with
  | nil => rfl
  | append_singleton es e ih =>
    rw [run_concat, List.length_append, ← ih]
    rfl

theorem persisted_step (h : Inv o s) (e : Event) :
    s.persistedGeneration ≤ (s.step P o e).persistedGeneration := by
  rcases (moves_act (P := P) (o := o) s e).persisted with heq | ⟨f, ok, now, rfl⟩
  · exact heq.ge
  · exact (h.saved f ok).2

theorem persisted_mono (es later : List Event) :
    (run P o es).persistedGeneration ≤ (run P o (es ++ later)).persistedGeneration := by
  induction later using List.reverseRecOn with
  | nil => rw [List.append_nil]
  | append_singleton later e ih =>
    rw [← List.append_assoc, run_concat]
    exact ih.trans (persisted_step (inv_run _) e)

theorem requested_mono {j : ℕ} (h : i ≤ j) :
    (run P o (es.take i)).requestedGeneration ≤ (run P o (es.take j)).requestedGeneration := by
  induction j, h using Nat.le_induction with
  | base => exact le_rfl
  | succ j _ ih =>
    refine ih.trans ?_
    rw [List.take_add_one]
    cases es[j]? with
    | none => simp
    | some e =>
      rw [Option.toList_some, run_concat]
      exact (moves_act (P := P) (o := o) _ e).requested

/-- A save was taken of the state of its moment, and a call raised the number of its moment. -/
structure Logged (P : Platform) (o : Options) (es : List Event) : Prop where
  saves : ∀ save ∈ (run P o es).saves, save.taken < es.length ∧
    save.generation = (run P o (es.take save.taken)).requestedGeneration ∧
    save.snapshot = (snapshotState P o (run P o (es.take save.taken)).data save.snapshot.savedAt).2
  calls : ∀ call ∈ (run P o es).calls, call.since < es.length ∧
    (o.stateStore = true →
      (run P o (es.take call.since)).requestedGeneration < call.targetGeneration) ∧
    ∀ record, call.asker = .dhtStore record →
      (keyOf P record, record) ∈
        (run P o (es.take (call.since + 1))).data.recordStore.records

theorem logged_run (es : List Event) : Logged P o es := by
  induction es using List.reverseRecOn with
  | nil => exact ⟨fun _ h => (by cases h), fun _ h => (by cases h)⟩
  | append_singleton es e ih =>
    have hmoves := moves_act (P := P) (o := o) (run P o es) e
    have hold : ∀ {n}, n ≤ es.length → (es ++ [e]).take n = es.take n := fun hn =>
      List.take_append_of_le_length hn
    constructor
    · intro save hsave
      rw [run_concat] at hsave
      rw [List.length_append]
      rcases hmoves.saves save hsave with ⟨old, hmem, hgeneration, htaken, hsnapshot⟩ |
        ⟨hgeneration, htaken, hsnapshot⟩
      · obtain ⟨hlt, hold', hdata⟩ := ih.saves old hmem
        rw [hgeneration, htaken, hsnapshot, hold hlt.le]
        exact ⟨hlt.trans (Nat.lt_succ_self _), hold', hdata⟩
      · rw [run_clock] at htaken
        rw [htaken, hold le_rfl, List.take_length]
        exact ⟨Nat.lt_succ_self _, hgeneration, hsnapshot⟩
    · intro call hcall
      have hcall' := hcall
      rw [run_concat] at hcall'
      rw [List.length_append]
      rcases hmoves.calls call hcall' with ⟨old, hmem, hsince, htarget, hasker⟩ |
        ⟨hsince, htarget, hrecord⟩
      · obtain ⟨hlt, hless, hrecord⟩ := ih.calls old hmem
        rw [hsince, htarget, hasker, hold hlt.le, hold hlt]
        exact ⟨hlt.trans (Nat.lt_succ_self _), hless, hrecord⟩
      · rw [run_clock] at hsince
        have htake : (es ++ [e]).take (call.since + 1) = es ++ [e] := by
          rw [hsince]
          exact List.take_of_length_le (by simp)
        rw [htake, run_concat, hsince, hold le_rfl, List.take_length]
        exact ⟨Nat.lt_succ_self _, htarget, hrecord⟩

/-- Between two moments a record stays, or it is lost at one of the events. -/
theorem record_kept {record : Value} {n : ℕ} (hin : i ≤ n) (hn : n ≤ es.length)
    (h : (keyOf P record, record) ∈ (run P o (es.take i)).data.recordStore.records) :
    (keyOf P record, record) ∈ (run P o (es.take n)).data.recordStore.records ∨
      ∃ k e, i ≤ k ∧ k < n ∧ es[k]? = some e ∧ Lost P (run P o (es.take (k + 1))) e record := by
  induction n, hin using Nat.le_induction with
  | base => exact .inl h
  | succ n hle ih =>
    rcases ih (Nat.le_of_succ_le hn) with hmem | ⟨k, e, hik, hkn, hlost⟩
    · have hget : es[n]? = some (es.get ⟨n, hn⟩) := List.getElem?_eq_getElem hn
      have hrun : run P o (es.take (n + 1)) = (run P o (es.take n)).step P o (es.get ⟨n, hn⟩) := by
        rw [List.take_add_one, hget, Option.toList_some, run_concat]
      rcases (moves_act (P := P) (o := o) (run P o (es.take n)) (es.get ⟨n, hn⟩)).records record hmem with
        hmem | hlost
      · exact .inl (hrun ▸ hmem)
      · exact .inr ⟨n, _, hle, Nat.lt_succ_self n, hget, hrun ▸ hlost⟩
    · exact .inr ⟨k, e, hik, hkn.trans (Nat.lt_succ_self n), hlost⟩

/-- Whoever is answered is in a save whose snapshot was taken later; there is one save at a time, and
    the number that is saved never goes back. -/
theorem persist_barrier (P : Platform) (o : Options) (es : List Event) : Barrier P o es where
  monotone := persisted_mono es
  single := by
    intro k j save other hk hj hsave hother
    have h := inv_run (P := P) (o := o) es
    obtain ⟨f, hf⟩ := h.inFlight k save hk hsave
    obtain ⟨g, hg⟩ := h.inFlight j other hj hother
    obtain rfl := h.one hf hg rfl rfl
    exact Flush.saving.inj (Option.some.inj (hf.symm.trans hg))
  durable := by
    intro hstored call hcall result hresult
    have hlog := logged_run (P := P) (o := o) es
    have h := inv_run (P := P) (o := o) es
    obtain ⟨hsince, htarget, hrecord⟩ := hlog.calls call hcall
    have hreached := h.resolved hstored call hcall result hresult
    have hraised := htarget hstored
    rcases h.persisted with hzero | ⟨save, hsave, hdone, hgeneration⟩
    · omega
    · obtain ⟨htaken, hof, hsnapshot⟩ := hlog.saves save hsave
      -- The number of the snapshot is that of the call at least, so it was taken later.
      have hafter : call.since < save.taken := by
        by_contra hbefore
        have hmono : (run P o (es.take save.taken)).requestedGeneration ≤
            (run P o (es.take call.since)).requestedGeneration :=
          requested_mono (Nat.not_lt.mp hbefore)
        omega
      refine ⟨save, hsave, hdone, ⟨hafter, htaken, hsnapshot⟩, fun record hasker => ?_⟩
      rcases record_kept hafter htaken.le (hrecord record hasker) with hmem | ⟨k, e, hk, hkn, hlost⟩
      · rcases verifying_keeps save.snapshot.savedAt
          (run P o (es.take save.taken)).data.recordStore.signatures hmem with hlive | hexpired
        · refine .inl ?_
          rw [hsnapshot]
          exact List.mem_map.mpr ⟨_, hlive, rfl⟩
        · exact .inr (.inl hexpired)
      · exact .inr (.inr ⟨k, e, hk, hkn, hlost⟩)

/-! ### Acknowledged, and not in a save -/

def inMemory : Options := ⟨js "A", false, 250, 1000⟩

def onDisk : Options := ⟨js "A", true, 250, 1000⟩

/-- A second record of the publisher is stored before the flush of the first has its turn. -/
def overtaken : List Event :=
  [.lifecycle true false, .dhtStore (published 1 90) 10, .dhtStore (published 2 90) 11,
    .immediate 0 12, .saved 0 true 13, .settle 0 14, .resume 0 15]

/-- Without a state file nothing is saved; and the record of an answered `dht.store` need not be in a
    save, for a newer one may have its place. -/
theorem acknowledged_unsaved :
    (∃ call ∈ (run plain inMemory [.dhtStore (published 1 90) 10]).calls,
      call.asker = .dhtStore (published 1 90) ∧ call.wait = .resolved none ∧
      (run plain inMemory [.dhtStore (published 1 90) 10]).saves = []) ∧
    ∃ call ∈ (run plain onDisk overtaken).calls,
      call.asker = .dhtStore (published 1 90) ∧ (∃ result, call.wait = .resolved result) ∧
      ∀ save ∈ (run plain onDisk overtaken).saves,
        published 1 90 ∉ save.snapshot.dhtRecords := by
  refine ⟨⟨_, List.mem_singleton.mpr rfl, rfl, rfl, rfl⟩, ?_⟩
  have hsaves : ((run plain onDisk overtaken).saves.map fun save => save.snapshot.dhtRecords) =
      [[published 2 90]] := rfl
  refine ⟨_, List.mem_cons_self, rfl, ⟨_, rfl⟩, fun save hsave hmem => ?_⟩
  have hrecords : save.snapshot.dhtRecords = [published 2 90] := by
    rw [← List.mem_singleton, ← hsaves]
    exact List.mem_map.mpr ⟨save, hsave, rfl⟩
  rw [hrecords, List.mem_singleton] at hmem
  have hsequence : (published 1 90).get "sequence" = (published 2 90).get "sequence" := by rw [hmem]
  have hone : (1 : ℚ) = 2 := Trust.Value.number.inj (Option.some.inj hsequence)
  norm_num at hone

end Persistence

end Truyn.Runtime
