import Truyn.Ledger.SqliteRefines
import Truyn.Ledger.Cosmos

/-! ledger:lifecycle | both ledgers keep the lifecycle of a NEED safe

    Over every run of `reserveNeed`, `acceptPartial`, `transitionNeed` and `acknowledgeDelivery` by
    any number of processes, the record of a NEED moves through the versions of one safe history,
    and only a committed write moves it. -/

namespace Truyn.Ledger
open Async Cas

/-- A machine keeps the lifecycle of every NEED: `view` is the stored record, `history` its versions,
    `told` says that a step answers a fault to some caller, `lost` that the outside input loses the
    reply of what it lets execute. -/
structure Lifecycle {σ τ ε : Type} (M : Machine σ τ ε) (start : Sys σ τ)
    (view : σ → JsString → Option Record) (history : σ → JsString → History)
    (told : σ → σ → Prop) (lost : ε → Prop) : Prop where
  /-- The stored record is the newest version. -/
  stored : ∀ s, Runs M free start s → ∀ id,
    view s.shared id = (history s.shared id).head?.map Version.doc
  /-- The versions of every record are safe. -/
  safe : ∀ s, Runs M free start s → ∀ id, Safe (history s.shared id)
  /-- No version is ever taken back. -/
  kept : ∀ s s', Runs M free start s → Runs M free s s' → ∀ id,
    history s.shared id <:+ history s'.shared id
  /-- A step adds at most one version, to one record. -/
  commits : ∀ s s' l, Runs M free start s → step M s l = some s' →
    history s'.shared = history s.shared ∨ ∃ id v,
      history s'.shared = Function.update (history s.shared) id (v :: history s.shared id)
  /-- A call that is told a fault has not changed any record or outbox, unless a reply got lost. -/
  failures : ∀ s s' l, Runs M free start s → step M s l = some s' → told s.shared s'.shared →
    ¬lost l.2 → ∀ id, view s'.shared id = view s.shared id

namespace Sqlite

theorem consistent_of_runs {maxRecords : ℕ} {s : Sys World Empty}
    (h : Runs (machine maxRecords) free init s) : Consistent s.shared :=
  (h.sound (machine_sound maxRecords) init_holds).1

/-- What one call does to the histories: nothing, or one more version of one record. -/
theorem record_cases {maxRecords : ℕ} {up : Bool} {w : World} {c : Call} {now : Time} {db' : Db}
    {a : Except Fault Reply} (h : call maxRecords up c now w.db = (a, db')) :
    w.record c now a db' = w.history ∨
      ∃ id v, w.record c now a db' = Function.update w.history id (v :: w.history id) := by
  rcases call_commits h with ⟨hno, rfl⟩ | ⟨⟨r, rfl, hwrote⟩, id, htarget, hc⟩
  · exact Or.inl (record_of_no_write hno)
  · obtain ⟨d, hd, -⟩ := hc.writes
    exact Or.inr ⟨id, _, record_of_write hwrote htarget hd⟩

theorem lifecycle (maxRecords : ℕ) :
    Lifecycle (machine maxRecords) init (fun w => w.db.view) World.history
      (fun w w' => ∃ c f, w'.answers = (c, .error f) :: w.answers) (fun e => e.2.2 = .lost) where
  stored := fun s h => (consistent_of_runs h).newest
  safe := fun s h id => safe_of_lineage ((consistent_of_runs h).lineage id)
  kept := fun s s' h0 h => h.along (Q := Grows) (machine_sound maxRecords)
    (fun _ _ => List.suffix_rfl) (fun _ _ _ huv hvw id => (huv id).trans (hvw id))
    (h0.sound (machine_sound maxRecords) init_holds)
  commits := by
    intro s s' l _ h
    obtain ⟨t, rest, w, ts, -, -, hM, rfl⟩ := step_cases h
    simp only [machine, Option.some.injEq, Prod.mk.injEq] at hM
    obtain ⟨rfl, -⟩ := hM
    exact record_cases rfl
  failures := by
    rintro s s' l - h ⟨c, f, hf⟩ hl id
    obtain ⟨t, rest, w, ts, -, -, hM, rfl⟩ := step_cases h
    simp only [machine, Option.some.injEq, Prod.mk.injEq] at hM
    obtain ⟨rfl, -⟩ := hM
    simp only [if_neg hl, List.cons.injEq, Prod.mk.injEq] at hf
    generalize hr : call maxRecords (decide (l.2.2.2 ≠ .unavailable)) l.2.1 l.2.2.1 s.shared.db =
      result at hf ⊢
    obtain ⟨a, db'⟩ := result
    rcases call_commits hr with ⟨-, rfl⟩ | ⟨⟨r, rfl, -⟩, -⟩
    · rfl
    · cases hf.1.2

end Sqlite

namespace Cosmos

/-- One more version of a document is one more version of its record. -/
theorem history_of_stored {cfg : Config} {w w' : Cas.World JsString Call Time Doc Fault}
    {v : Version Call Time Doc} (h : Stored (client cfg) w w' v) :
    history w' = Function.update (history w) (key v.call)
      (⟨v.call, v.time, v.doc.toRecord⟩ :: history w (key v.call)) := by
  funext id
  unfold history
  rw [h.2]
  by_cases hid : id = key v.call
  · subst hid
    rw [Function.update_self]
    exact congrArg _ (Cas.World.store_docs w (key v.call) v)
  · rw [Function.update_of_ne hid]
    exact congrArg _ (Cas.World.store_docs_ne hid w v)

theorem lifecycle (cfg : Config) :
    Lifecycle (machine cfg) Cas.init view history
      (fun w w' => ∃ c f, w'.answers = (c, .error f) :: w.answers)
      (fun e => ∃ f, e = .execute (some f)) where
  stored := fun s _ => view_eq_head s.shared
  safe := fun s h id => safe_of_lineage (abstract_of_runs cfg h id)
  kept := fun s s' h0 h id => (grows_of_runs (client cfg) h0 h id).map _
  commits := by
    intro s s' l h0 h
    rcases docs_of_step (client cfg) h0 h with hd | ⟨-, v, hs⟩
    · exact Or.inl (by funext id; unfold history; rw [hd])
    · exact Or.inr ⟨_, _, history_of_stored hs⟩
  failures := by
    rintro s s' l - h ⟨c, f, hf⟩ hl id
    obtain ⟨t, rest, w, ts, -, -, hM, rfl⟩ := step_cases h
    have hd := machine_fault hM hf fun f' he => hl ⟨f', he⟩
    unfold view
    rw [hd]

end Cosmos

/-- LIFECYCLE: the single-host and the multi-host ledger both keep the lifecycle of every NEED. -/
theorem ledgers_keep_lifecycle :
    (∀ maxRecords, Lifecycle (Sqlite.machine maxRecords) Sqlite.init (fun w => w.db.view)
      Sqlite.World.history (fun w w' => ∃ c f, w'.answers = (c, .error f) :: w.answers)
      (fun e => e.2.2 = .lost)) ∧
    (∀ cfg, Lifecycle (Cosmos.machine cfg) Cas.init Cosmos.view Cosmos.history
      (fun w w' => ∃ c f, w'.answers = (c, .error f) :: w.answers)
      (fun e => ∃ f, e = .execute (some f))) :=
  ⟨Sqlite.lifecycle, Cosmos.lifecycle⟩

end Truyn.Ledger
