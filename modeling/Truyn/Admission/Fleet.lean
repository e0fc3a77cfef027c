import Truyn.Admission.NeedReplay

/-! admission:fleet | relays and replay guards over one ledger

    Any number of relays and guards, each with its own memory, make their calls on one book. A
    segment of one of them runs on its memory with the book in it; `log` and `outcomes` are what
    left the fleet. A reservation commits at most once for each NEED id, so all of them together
    dispatch or let through a NEED at most once. -/

namespace Truyn.Admission
open Async
open Ledger (Fault Book versions reservations)
open Relay (Id World Options Env Output)

variable {ι κ : Type}

/-- A fleet of relays `ι` and guards `κ`. -/
structure Fleet (ι κ : Type) where
  relays : ι → World
  guards : κ → Guard
  book : Book
  log : List Output
  outcomes : List (Envelope × Option Fault)

inductive Site (ι κ : Type)
  | relay (i : ι)
  | guard (k : κ)

inductive FleetTask (ι κ : Type)
  | relay (i : ι) (t : Relay.Task)
  | guard (k : κ) (t : Task)

/-- Input to a segment: where a new task starts, and what each site gets if the segment is its. -/
structure Supply (ι κ : Type) (o : ι → Options) where
  site : Site ι κ
  relays : ∀ i, Relay.Input × Env (o i)
  guards : κ → Input × Ledger.Time

namespace Fleet

variable (F : Fleet ι κ)

/-- The memory of a relay, with the shared book. -/
def relay (i : ι) : World := { F.relays i with ledger := some F.book, log := F.log }

/-- The memory of a guard, with the shared book. -/
def guard (k : κ) : Guard := { F.guards k with ledger := some F.book, outcomes := F.outcomes }

def setRelay [DecidableEq ι] (i : ι) (w : World) : Fleet ι κ :=
  { F with
    relays := Function.update F.relays i w, book := w.ledger.getD F.book, log := w.log }

def setGuard [DecidableEq κ] (k : κ) (g : Guard) : Fleet ι κ :=
  { F with
    guards := Function.update F.guards k g, book := g.ledger.getD F.book, outcomes := g.outcomes }

end Fleet

variable (o : ι → Options) (p : κ → GuardOptions)

/-- A segment of a relay of the fleet. -/
def relayStep [DecidableEq ι] (F : Fleet ι κ) (i : ι) (t : Option Relay.Task) (x : Relay.Input × Env (o i)) :
    Option (Fleet ι κ × List (FleetTask ι κ)) :=
  (Relay.machine (o i) (F.relay i) t x).map fun r => (F.setRelay i r.1, r.2.map (.relay i))

/-- A segment of a guard of the fleet. -/
def guardStep [DecidableEq κ] (F : Fleet ι κ) (k : κ) (t : Option Task) (x : Input × Ledger.Time) :
    Option (Fleet ι κ × List (FleetTask ι κ)) :=
  (machine (p k) (F.guard k) t x).map fun r => (F.setGuard k r.1, r.2.map (.guard k))

/-- The fleet: each segment is one of a relay or of a guard. -/
def fleet [DecidableEq ι] [DecidableEq κ] : Machine (Fleet ι κ) (FleetTask ι κ) (Supply ι κ o)
  | F, some (.relay i t), x => relayStep o F i (some t) (x.relays i)
  | F, some (.guard k t), x => guardStep p F k (some t) (x.guards k)
  | F, none, x =>
    match x.site with
    | .relay i => relayStep o F i none (x.relays i)
    | .guard k => guardStep p F k none (x.guards k)

/-- A fleet that has just started over an empty ledger. -/
def assemble : Sys (Fleet ι κ) (FleetTask ι κ) :=
  ⟨⟨fun _ => .start none, fun _ => ⟨[], none, []⟩, fun _ => [], [], []⟩, []⟩

/-! ### Sites -/

variable {o p} {F F' : Fleet ι κ}

/-- A relay that another site's segment leaves alone, but for ledger and log. -/
theorem relay_else (w : World) (b : Book) (log : List Output) (hl : w.ledger.isSome) :
    Relay.Keeps w { w with ledger := some b, log := log } where
  object _ q hq := ⟨q, hq, rfl, rfl, rfl, rfl, rfl⟩
  size := le_refl _
  ledger := hl.symm

variable {w : World} {b : Book} {g : Guard} {t : Option Relay.Task} {x : Input × Ledger.Time}

theorem relay_setRelay [DecidableEq ι] (i : ι) (hw : w.ledger = some b) (j : ι) :
    (F.setRelay i w).relay j =
      if j = i then w else { F.relay j with ledger := some b, log := w.log } := by
  simp only [Fleet.relay, Fleet.setRelay, Function.update_apply, hw, Option.getD_some]
  split
  · rw [← hw]
  · rfl

theorem guard_setRelay [DecidableEq ι] (i : ι) (hw : w.ledger = some b) (k : κ) :
    (F.setRelay i w).guard k = { F.guard k with ledger := some b } := by
  simp only [Fleet.guard, Fleet.setRelay, hw, Option.getD_some]

theorem guard_setGuard [DecidableEq κ] (k : κ) (hg : g.ledger = some b) (j : κ) :
    (F.setGuard k g).guard j =
      if j = k then g else { F.guard j with ledger := some b, outcomes := g.outcomes } := by
  simp only [Fleet.guard, Fleet.setGuard, Function.update_apply, hg, Option.getD_some]
  split
  · rw [← hg]
  · rfl

theorem relay_setGuard [DecidableEq κ] (k : κ) (hg : g.ledger = some b) (i : ι) :
    (F.setGuard k g).relay i = { F.relay i with ledger := some b } := by
  simp only [Fleet.relay, Fleet.setGuard, hg, Option.getD_some]

/-! ### Every site stays sane -/

/-- The book is a ledger's, and every relay and every guard is sane. -/
structure FleetSane (o : ι → Options) (p : κ → GuardOptions) (F : Fleet ι κ) : Prop where
  book : ∀ id, Ledger.Abstract (versions (some F.book) id)
  relay : ∀ i, Relay.Sane (o i) (F.relay i)
  guard : ∀ k, Sane (p k) (F.guard k)

/-- A task fits the memory of its site. -/
def FleetFits (o : ι → Options) (F : Fleet ι κ) : FleetTask ι κ → Prop
  | .relay i t => Relay.Fits (o i) (F.relay i) t
  | .guard k t => Fits (F.guard k) t

structure FleetOnward (F F' : Fleet ι κ) : Prop where
  relay : ∀ i, Relay.Keeps (F.relay i) (F'.relay i)
  guard : ∀ k, Onward (F.guard k) (F'.guard k)

theorem relay_share {o : Options} (h : Relay.Sane o w)
    (hb : ∀ id, Ledger.Abstract (versions (some b) id)) (log : List Output) :
    Relay.Sane o { w with ledger := some b, log := log } :=
  ⟨⟨h.wf.named, h.wf.stage⟩, hb, h.seen, h.room⟩

variable {i : ι} {ts : List (FleetTask ι κ)} {k : κ}

theorem relayStep_react [DecidableEq ι] {x : Relay.Input × Env (o i)} (hF : FleetSane o p F)
    (ht : ∀ y ∈ t, Relay.Fits (o i) (F.relay i) y) (h : relayStep o F i t x = some (F', ts)) :
    FleetSane o p F' ∧ FleetOnward F F' ∧ ∀ y ∈ ts, FleetFits o F' y := by
  obtain ⟨⟨w, us⟩, hM, he⟩ := Option.map_eq_some_iff.mp h
  cases he
  have hseg := Relay.segment_of_machine (hF.relay i).wf ht hM
  have hsane := hseg.sane (hF.relay i)
  have hon := hseg.onward
  have hl : (F.relay i).ledger.isSome := rfl
  obtain ⟨b, hb⟩ := Option.isSome_iff_exists.mp (hon.ledger.trans hl)
  have hlin := hsane.lineage
  simp only at hsane hb hlin
  rw [hb] at hlin
  have hbook : (F.setRelay i w).book = b := by simp [Fleet.setRelay, hb]
  refine ⟨⟨hbook ▸ hlin, fun j => ?_, fun k => ?_⟩, ⟨fun j => ?_, fun k => ?_⟩, fun y hy => ?_⟩
  · rw [relay_setRelay i hb]
    split
    · next hj => exact hj ▸ hsane
    · exact relay_share (hF.relay j) hlin _
  · rw [guard_setRelay i hb]
    exact ⟨hlin, (hF.guard k).seen, (hF.guard k).room⟩
  · rw [relay_setRelay i hb]
    split
    · next hj => exact hj ▸ hon.toKeeps
    · exact relay_else _ _ _ rfl
  · rw [guard_setRelay i hb]
    exact ⟨rfl, List.prefix_rfl⟩
  · obtain ⟨u, hu, rfl⟩ := List.mem_map.mp hy
    rw [FleetFits, relay_setRelay i hb, if_pos rfl]
    exact hseg.fits ht u hu

theorem guardStep_react [DecidableEq κ] {t : Option Task} (hF : FleetSane o p F)
    (ht : ∀ y ∈ t, Fits (F.guard k) y) (h : guardStep p F k t x = some (F', ts)) :
    FleetSane o p F' ∧ FleetOnward F F' ∧ ∀ y ∈ ts, FleetFits o F' y := by
  obtain ⟨⟨g, us⟩, hM, he⟩ := Option.map_eq_some_iff.mp h
  cases he
  have hseg := segment_of_machine ht hM
  have hsane := hseg.sane (hF.guard k)
  have hon := hseg.onward
  have hl : (F.guard k).ledger.isSome := rfl
  obtain ⟨b, hb⟩ := Option.isSome_iff_exists.mp (hon.ledger.trans hl)
  have hlin := hsane.lineage
  simp only at hsane hb hlin
  rw [hb] at hlin
  have hbook : (F.setGuard k g).book = b := by simp [Fleet.setGuard, hb]
  refine ⟨⟨hbook ▸ hlin, fun i => ?_, fun j => ?_⟩, ⟨fun i => ?_, fun j => ?_⟩, fun y hy => ?_⟩
  · rw [relay_setGuard k hb]
    exact relay_share (hF.relay i) hlin _
  · rw [guard_setGuard k hb]
    split
    · next hj => exact hj ▸ hsane
    · exact ⟨hlin, (hF.guard j).seen, (hF.guard j).room⟩
  · rw [relay_setGuard k hb]
    exact relay_else _ _ _ rfl
  · rw [guard_setGuard k hb]
    split
    · next hj => exact hj ▸ hon
    · exact ⟨rfl, List.prefix_rfl⟩
  · obtain ⟨u, hu, rfl⟩ := List.mem_map.mp hy
    rw [FleetFits, guard_setGuard k hb, if_pos rfl]
    exact hseg.fits ht u hu

theorem fleet_sound [DecidableEq ι] [DecidableEq κ] (o : ι → Options) (p : κ → GuardOptions) :
    Sound (fleet o p) free (FleetSane o p) (FleetFits o) FleetOnward where
  react F t x F' ts hF ht _ hM := by
    cases t with
    | none =>
      simp only [fleet] at hM
      split at hM
      · exact relayStep_react hF (by simp) hM
      · exact guardStep_react hF (by simp) hM
    | some y =>
      cases y with
      | relay i t => exact relayStep_react hF (fun y hy => Option.mem_some.mp hy ▸ ht _ rfl) hM
      | guard k t => exact guardStep_react hF (fun y hy => Option.mem_some.mp hy ▸ ht _ rfl) hM
  stable F F' y _ hR hy := by
    cases y with
    | relay i t => exact (hR.relay i).fits hy
    | guard k t => exact (hR.guard k).fits hy

/-! ### Tokens -/

/-- A site that let a NEED through and has not acted on it yet. -/
def fleetAdmitting (id : Id) : FleetTask ι κ → ℕ
  | .relay _ t => Relay.admitting id t
  | .guard _ t => admitting id t

/-- How often a NEED was dispatched by relays or let through by guards. -/
def executions (id : Id) (F : Fleet ι κ) : ℕ :=
  F.log.countP (Output.needs id) + F.outcomes.countP (lets id)

theorem relayStep_covered [DecidableEq ι] {x : Relay.Input × Env (o i)} (hF : FleetSane o p F)
    (ht : ∀ y ∈ t, Relay.Fits (o i) (F.relay i) y) (h : relayStep o F i t x = some (F', ts))
    (id : Id) : Covered (fleetAdmitting id) (executions id) (fun F => reservations (some F.book) id)
      F (t.map (.relay i)) F' ts := by
  obtain ⟨⟨w, us⟩, hM, he⟩ := Option.map_eq_some_iff.mp h
  cases he
  have hseg := Relay.segment_of_machine (hF.relay i).wf ht hM
  have hcov := hseg.admission ht id
  have hl : (F.relay i).ledger.isSome := rfl
  obtain ⟨b, hb⟩ := Option.isSome_iff_exists.mp (hseg.onward.ledger.trans hl)
  refine hcov.lift ?_ (F.outcomes.countP (lets id)) ?_ ?_ ?_ ?_
  · exact fun _ => rfl
  · rfl
  · rfl
  · rfl
  simp only at hb
  simp only [Fleet.setRelay, Relay.allowance, hb, Option.getD_some]

theorem guardStep_covered [DecidableEq κ] {t : Option Task} (ht : ∀ y ∈ t, Fits (F.guard k) y)
    (h : guardStep p F k t x = some (F', ts)) (id : Id) :
    Covered (fleetAdmitting id) (executions id) (fun F => reservations (some F.book) id)
      F (t.map (.guard k)) F' ts := by
  obtain ⟨⟨g, us⟩, hM, he⟩ := Option.map_eq_some_iff.mp h
  cases he
  have hseg := segment_of_machine ht hM
  have hcov := hseg.admission ht id
  have hl : (F.guard k).ledger.isSome := rfl
  obtain ⟨b, hb⟩ := Option.isSome_iff_exists.mp (hseg.onward.ledger.trans hl)
  refine hcov.lift ?_ (F.log.countP (Output.needs id)) ?_ ?_ ?_ ?_
  · exact fun _ => rfl
  · exact Nat.add_comm _ _
  · exact Nat.add_comm _ _
  · rfl
  simp only at hb
  simp only [Fleet.setGuard, allowance, hb, Option.getD_some]

/-- FLEET: all relays and guards over one ledger together execute a NEED at most once. -/
theorem executions_le [DecidableEq ι] [DecidableEq κ] (o : ι → Options) (p : κ → GuardOptions)
    {s : Sys (Fleet ι κ) (FleetTask ι κ)} (h : Runs (fleet o p) free assemble s) (id : Id) :
    executions id s.shared ≤ 1 := by
  have h0 : Holds (FleetSane o p) (FleetFits o) (assemble (ι := ι) (κ := κ)) := by
    refine ⟨⟨fun _ => .nil, fun i => ?_, fun k => ?_⟩, fun _ h => absurd h List.not_mem_nil⟩
    · have hw := (Relay.holds_init (o i) (fun _ h => absurd h (Option.not_mem_none _))).1
      exact relay_share hw (fun _ => .nil) []
    · exact ⟨fun _ => .nil, List.nodup_nil, Nat.zero_le _⟩
  have hs := (h.sound (fleet_sound o p) h0).1
  have hb := Runs.within (fleet_sound o p) (fleetAdmitting id) (executions id)
    (fun F => reservations (some F.book) id) (fun F t x F' ts hF ht _ hM => ?_) h h0
    (by simp [assemble, executions])
  · have hle := Ledger.reservations_le hs.book id
    omega
  · cases t with
    | none =>
      simp only [fleet] at hM
      split at hM
      · exact relayStep_covered hF (by simp) hM id
      · exact guardStep_covered (by simp) hM id
    | some y =>
      cases y with
      | relay i t => exact relayStep_covered hF (fun y hy => Option.mem_some.mp hy ▸ ht _ rfl) hM id
      | guard k t => exact guardStep_covered (fun y hy => Option.mem_some.mp hy ▸ ht _ rfl) hM id

/-! ### At most once -/

/-- What a site promises with its own set: every id it acted on is in the set, once, the set has
    room for `max` ids, and ids never leave it, so a full set only refuses. -/
structure Remembers (max : ℕ) (acted : Id → ℕ) (seen : List Id) : Prop where
  once : ∀ id, acted id ≤ 1
  kept : ∀ id, 0 < acted id → id ∈ seen
  room : seen.length ≤ max

theorem remembers {max : ℕ} {acted : Id → ℕ} {seen : List Id} (hn : seen.Nodup)
    (hr : seen.length ≤ max) (hc : ∀ id, acted id ≤ seen.count id) :
    Remembers max acted seen where
  once id := (hc id).trans (List.nodup_iff_count_le_one.mp hn id)
  kept id h := List.count_pos_iff.mp (h.trans_le (hc id))
  room := hr

theorem relay_remembers (o : Options) {s : Sys World Relay.Task}
    (h : Runs (Relay.machine o) free (Relay.init none) s) :
    Remembers o.maxSeenNeedIds (Relay.dispatches · s.shared) s.shared.seenNeedIds := by
  have hs := (Relay.dispatches_le none (by simp) h []).1
  have hon : Relay.Keeps (Relay.init none).shared s.shared :=
    h.along (Relay.sane_sound o free) (Q := Relay.Keeps) .refl
      (fun _ _ _ h h' => h.trans h'.toKeeps) (Relay.holds_init o (by simp))
  have hl : s.shared.ledger = none := by simpa [Relay.init, World.start] using hon.ledger
  refine remembers hs.seen hs.room fun id => ?_
  have := (Relay.dispatches_le none (by simp) h id).2
  rwa [Relay.allowance, hl] at this

theorem guard_remembers (o : GuardOptions) {s : Sys Guard Task}
    (h : Runs (machine o) free (init none) s) :
    Remembers o.maxSeenNeedIds (admissions · s.shared) s.shared.seen := by
  have hs := (admissions_le none (by simp) h []).1
  have hl : s.shared.ledger = none := by
    have : s.shared.ledger.isSome = (init none).shared.ledger.isSome :=
      h.along (sane_sound o) (Q := fun g g' => g'.ledger.isSome = g.ledger.isSome) (fun _ => rfl)
        (fun _ _ _ h h' => h'.ledger.trans h) (holds_init o (by simp))
    simpa [init] using this
  refine remembers hs.seen hs.room fun id => ?_
  have := (admissions_le none (by simp) h id).2
  rwa [allowance, hl] at this

/-- NEEDS ONCE: without a ledger each relay and each guard acts on a NEED at most once for as long
    as it runs, and its set only grows; over a shared ledger all of them together do. -/
theorem needs_executed_once :
    (∀ (o : Options) (s : Sys World Relay.Task),
      Runs (Relay.machine o) free (Relay.init none) s →
      Remembers o.maxSeenNeedIds (Relay.dispatches · s.shared) s.shared.seenNeedIds ∧
      ∀ s', Runs (Relay.machine o) free s s' →
        s.shared.seenNeedIds <+: s'.shared.seenNeedIds) ∧
    (∀ (o : GuardOptions) (s : Sys Guard Task), Runs (machine o) free (init none) s →
      Remembers o.maxSeenNeedIds (admissions · s.shared) s.shared.seen ∧
      ∀ s', Runs (machine o) free s s' → s.shared.seen <+: s'.shared.seen) ∧
    ∀ (ι κ : Type) [DecidableEq ι] [DecidableEq κ] (o : ι → Options) (p : κ → GuardOptions)
      (s : Sys (Fleet ι κ) (FleetTask ι κ)), Runs (fleet o p) free assemble s →
      ∀ id, executions id s.shared ≤ 1 := by
  refine ⟨fun o s h => ⟨relay_remembers o h, fun s' h' => ?_⟩,
    fun o s h => ⟨guard_remembers o h, fun s' h' => ?_⟩,
    fun ι κ _ _ o p s h id => executions_le o p h id⟩
  · exact h'.along (Relay.sane_sound o free) (Q := fun w w' => w.seenNeedIds <+: w'.seenNeedIds)
      (fun _ => List.prefix_rfl) (fun _ _ _ h h' => h.trans h'.seen)
      (h.sound (Relay.sane_sound o free) (Relay.holds_init o (by simp)))
  · exact h'.along (sane_sound o) (Q := fun g g' => g.seen <+: g'.seen)
      (fun _ => List.prefix_rfl) (fun _ _ _ h h' => h.trans h'.seen)
      (h.sound (sane_sound o) (holds_init o (by simp)))

/-- A relay that has dispatched NEED 9 never does so again. -/
theorem asked_need_executed_once : ∃ s, Runs (Relay.machine Relay.small) free (Relay.init none) s ∧
    Relay.dispatches [9] s.shared = 1 ∧
    ∀ s', Runs (Relay.machine Relay.small) free s s' → [9] ∈ s'.shared.seenNeedIds ∧
      Relay.dispatches [9] s'.shared ≤ 1 := by
  obtain ⟨s, h, hs⟩ := exists_run (M := Relay.machine Relay.small) (s := Relay.init none)
    (fun _ _ _ => true) (fun _ _ _ _ => trivial) Relay.askNeed
    (fun s => Relay.dispatches [9] s.shared = 1) (by decide)
  refine ⟨s, h, of_decide_eq_true hs, fun s' h' => ?_⟩
  obtain ⟨hrem, hgrow⟩ := needs_executed_once.1 Relay.small s h
  have hrem' := (needs_executed_once.1 Relay.small s' (h.trans h')).1
  exact ⟨(hgrow s' h').subset (hrem.kept [9] (by rw [of_decide_eq_true hs]; decide)),
    hrem'.once [9]⟩

end Truyn.Admission
