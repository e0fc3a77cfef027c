import Truyn.Store.DurableJson

/-! store:exclusive | when one process at a time is inside a transaction, and no update is lost

    The takeover of a stale lock judges a lock file and unlinks whatever is there later. `Orderly` says
    that no running process holds what is unlinked. -/

namespace Truyn.Store

variable {β : Type} {cfg : Config β} {w w' : World β} {i j n : ℕ} {p q : Process β} {a : Answer}
  {place : Place β}

/-- The lock file that a process has made and not given back. -/
def Place.holds : Place β → Option ℕ
  | .writing _ _ f | .entered _ _ f | .computing _ _ f _ | .releasing _ f _ | .removing f _ => some f
  | _ => none

/-- Between `acquireLock` and the end of `releaseLock`. -/
def Place.inside : Place β → Bool
  | .entered .. | .computing .. | .releasing .. | .removing .. => true
  | _ => false

def Place.unlinks : Place β → Bool
  | .unlinking .. => true
  | _ => false

/-- The number of what the transaction has written and not returned yet. -/
def Place.pending : Place β → Option ℕ
  | .releasing _ _ t | .removing _ t => t
  | _ => none

theorem Place.holds_of_inside (h : place.inside = true) : place.holds.isSome := by
  cases place <;> simp_all [inside, holds]

/-- A running process is inside a transaction. -/
def World.inside (w : World β) (i : ℕ) : Prop :=
  ∃ p, w.processes[i]? = some p ∧ p.alive = true ∧ p.place.inside = true

/-- No running process holds a lock file. -/
def World.Free (w : World β) : Prop :=
  ∀ (i : ℕ) (p : Process β), w.processes[i]? = some p → p.alive = true → p.place.holds = none

/-- A running process holds the lock file. -/
def World.held (w : World β) (f : LockFile) : Bool :=
  w.processes.any fun p => p.alive && p.place.holds = some f.id

/-- Process `i` is about to unlink a stale lock file. -/
def World.takesOver (w : World β) (i : ℕ) : Bool :=
  (w.processes[i]?).any fun p => p.alive && p.place.unlinks

/-- What is unlinked as stale is no lock file that a running process holds. -/
def Orderly (w : World β) : Event β → Prop
  | .step i _ => w.takesOver i = true → w.lock.any w.held = false
  | _ => True

instance (w : World β) : ∀ e, Decidable (Orderly w e)
  | .step _ _ => inferInstanceAs (Decidable (_ → _))
  | .spawn _ | .crash _ | .transaction .. => .isTrue trivial

theorem World.free_of_held (h : w.lock.any w.held = false) {f : LockFile} (hf : w.lock = some f)
    (hj : w.processes[j]? = some q) (hq : q.alive = true) : q.place.holds ≠ some f.id := by
  intro hn
  rw [hf, Option.any_some, World.held, List.any_eq_false] at h
  exact h q (List.mem_of_getElem? hj) (by simp [hq, hn])

/-! ### Each process -/

/-- A running process that holds a lock file finds it in its place, and the state it has read is the
    state there is. -/
structure Fits (cfg : Config β) (w : World β) (i : ℕ) (p : Process β) : Prop where
  held : p.alive = true → ∀ n, p.place.holds = some n →
    ∃ f, w.lock = some f ∧ f.id = n ∧ f.creator = i
  current : p.alive = true → ∀ m o n c, p.place = .computing m o n c → c = w.read cfg
  pending : ∀ t ∈ p.place.pending, t < w.written.length

structure Sound (cfg : Config β) (w : World β) : Prop where
  fits : ∀ i p, w.processes[i]? = some p → Fits cfg w i p
  replay : w.read cfg = w.written.foldl Change.apply cfg.defaultState
  resolved : ∀ t ∈ w.resolved, t < w.written.length

/-- Two running processes do not hold lock files at once. -/
theorem Fits.alone (hp : Fits cfg w i p) (hq : Fits cfg w j q) (hi : p.alive = true)
    (hj : q.alive = true) (hpn : p.place.holds.isSome) (hqn : q.place.holds.isSome) : i = j := by
  obtain ⟨n, hn⟩ := Option.isSome_iff_exists.mp hpn
  obtain ⟨m, hm⟩ := Option.isSome_iff_exists.mp hqn
  obtain ⟨f, hf, -, rfl⟩ := hp.held hi n hn
  obtain ⟨g, hg, -, rfl⟩ := hq.held hj m hm
  rw [Option.some.inj (hf.symm.trans hg)]

/-- A process that holds nothing does not mind what happens to the files. -/
theorem Fits.free (hp : p.alive = true → p.place.holds = none)
    (hpending : ∀ t ∈ p.place.pending, t < w.written.length) : Fits cfg w i p := by
  refine ⟨fun hi n hn => ?_, fun hi m o n c hc => ?_, hpending⟩
  · rw [hp hi] at hn
    cases hn
  · have := hp hi
    rw [hc] at this
    cases this

theorem Fits.congr (h : Fits cfg w i p) (hlock : w'.lock = w.lock) (hfile : w'.file = w.file)
    (hwritten : w.written.length ≤ w'.written.length) : Fits cfg w' i p := by
  refine ⟨fun hi n hn => ?_, fun hi m o n c hc => ?_, fun t ht => (h.pending t ht).trans_le hwritten⟩
  · rw [hlock]
    exact h.held hi n hn
  · rw [h.current hi m o n c hc, World.read, World.read, hfile]

/-- The lock file is written to, and stays the one it is. -/
theorem Fits.relock (h : Fits cfg w i p) {g : LockFile → LockFile}
    (hg : ∀ l, (g l).id = l.id ∧ (g l).creator = l.creator) (hlock : w'.lock = w.lock.map g)
    (hfile : w'.file = w.file) (hwritten : w.written.length ≤ w'.written.length) :
    Fits cfg w' i p := by
  refine ⟨fun hi n hn => ?_, fun hi m o n c hc => ?_, fun t ht => (h.pending t ht).trans_le hwritten⟩
  · obtain ⟨f, hf, hid, hcreator⟩ := h.held hi n hn
    refine ⟨g f, by rw [hlock, hf, Option.map_some], ?_, ?_⟩
    · rw [(hg f).1, hid]
    · rw [(hg f).2, hcreator]
  · rw [h.current hi m o n c hc, World.read, World.read, hfile]

/-- One process goes on, and the others fit as before. -/
theorem Sound.advance (h : Sound cfg w) (place : Place β) (hi : w.processes[i]? = some p)
    (hprocs : w'.processes = w.processes.set i { p with place := place })
    (hself : Fits cfg w' i { p with place := place })
    (hothers : ∀ j q, j ≠ i → w.processes[j]? = some q → Fits cfg w j q → Fits cfg w' j q)
    (hreplay : w'.read cfg = w'.written.foldl Change.apply cfg.defaultState)
    (hresolved : ∀ t ∈ w'.resolved, t < w'.written.length) : Sound cfg w' := by
  refine ⟨fun j q hq => ?_, hreplay, hresolved⟩
  rw [hprocs] at hq
  rcases eq_or_ne j i with rfl | hne
  · have hlt := (List.getElem_of_getElem? hi).1
    rw [List.getElem?_set_self hlt] at hq
    exact Option.some.inj hq ▸ hself
  · rw [List.getElem?_set_ne hne.symm] at hq
    exact hothers j q hne hq (h.fits j q hq)

/-- A process goes on, and the files stay. -/
theorem Sound.go (h : Sound cfg w) (hi : w.processes[i]? = some p)
    (hself : Fits cfg w i { p with place := place }) : Sound cfg (w.go i p place) :=
  h.advance place hi rfl (hself.congr rfl rfl le_rfl)
    (fun _ _ _ _ hq => hq.congr rfl rfl le_rfl) h.replay h.resolved

/-- A process goes on and holds nothing. -/
theorem Sound.leave (h : Sound cfg w) (hi : w.processes[i]? = some p) (hplace : place.holds = none)
    (hpending : place.pending = none) : Sound cfg (w.go i p place) :=
  h.go hi (.free (fun _ => hplace) (by simp [hpending]))

theorem Sound.finish (h : Sound cfg w) (hi : w.processes[i]? = some p) {t : Option ℕ}
    (ht : ∀ c ∈ t, c < w.written.length) : Sound cfg (w.finish i p t) := by
  refine h.advance .idle hi rfl (.free (fun _ => rfl) (by simp [Place.pending]))
    (fun _ _ _ _ hq => hq.congr rfl rfl le_rfl) h.replay fun c hc => ?_
  rcases List.mem_append.mp hc with hc | hc
  · exact h.resolved c hc
  · exact ht c (by simpa using hc)

/-- The lock file goes while no other running process holds it. -/
theorem Sound.unlock (h : Sound cfg w) (hfree : w.Free) : Sound cfg { w with lock := none } := by
  refine ⟨fun i p hp => ?_, h.replay, h.resolved⟩
  exact .free (hfree i p hp) (h.fits i p hp).pending

/-- ONE CALL of a process keeps the world sound. -/
theorem sound_call (h : Sound cfg w) (hi : w.processes[i]? = some p) (hlive : p.alive = true)
    (hordered : Orderly w (.step i a)) : Sound cfg (w.call cfg i p a) := by
  have hfits := h.fits i p hi
  unfold World.call
  split
  · exact h
  · next m owner startedAt hplace =>
    split
    · exact h.leave hi rfl rfl
    · split
      · next hlock =>
        -- Without a lock file, no running process holds one.
        have hnobody : w.Free := by
          intro j q hq hj
          by_contra hn
          obtain ⟨n, hn⟩ := Option.ne_none_iff_exists'.mp hn
          obtain ⟨f, hf, -⟩ := (h.fits j q hq).held hj n hn
          rw [hlock] at hf
          cases hf
        refine h.advance (.writing m owner w.files) hi rfl ?_
          (fun j q _ hq hfit => .free (hnobody j q hq) hfit.pending) h.replay h.resolved
        refine ⟨fun _ n hn => ?_, fun _ m o n c hc => (by cases hc), by simp [Place.pending]⟩
        cases hn
        exact ⟨_, rfl, rfl, rfl⟩
      · exact h.leave hi rfl rfl
  · split
    · exact h.leave hi rfl rfl
    · split
      · exact h.leave hi rfl rfl
      · split
        · exact h.leave hi rfl rfl
        · exact h.leave hi rfl rfl
  · split
    · exact h.leave hi rfl rfl
    · exact h.leave hi rfl rfl
  · split
    · exact h.leave hi rfl rfl
    · exact h.leave hi rfl rfl
  · next m owner startedAt hplace =>
    split
    · exact h.leave hi rfl rfl
    · have hgone : Sound cfg (w.go i p (.opening m owner startedAt)) := h.leave hi rfl rfl
      refine Sound.unlock hgone fun j q hq hj => ?_
      by_contra hn
      obtain ⟨n, hn⟩ := Option.ne_none_iff_exists'.mp hn
      obtain ⟨f, hf, rfl, -⟩ := (hgone.fits j q hq).held hj n hn
      have hlt := (List.getElem_of_getElem? hi).1
      rcases eq_or_ne j i with rfl | hne
      · rw [World.go, List.getElem?_set_self hlt] at hq
        cases Option.some.inj hq
        cases hn
      · rw [World.go, List.getElem?_set_ne hne.symm] at hq
        have htakes : w.takesOver i = true := by
          rw [World.takesOver, hi, Option.any_some, hlive, hplace]
          rfl
        exact World.free_of_held (hordered htakes) hf hq hj hn
  · split
    · exact h.leave hi rfl rfl
    · exact h.leave hi rfl rfl
  · next m owner f hplace =>
    split
    · exact h.leave hi rfl rfl
    · have hrecord : ∀ l : LockFile, (if l.id = f then
          { l with record := some ⟨p.pid, owner⟩, mtimeMs := a.now } else l).id = l.id ∧
          (if l.id = f then
            { l with record := some ⟨p.pid, owner⟩, mtimeMs := a.now } else l).creator =
            l.creator := by
        intro l
        split <;> exact ⟨rfl, rfl⟩
      refine h.advance (.entered m owner f) hi rfl ?_
        (fun j q _ _ hfit => hfit.relock hrecord rfl rfl le_rfl) h.replay h.resolved
      refine Fits.relock (w := w) ⟨fun _ => ?_, fun _ _ _ _ c hc => (by cases hc), by
        simp [Place.pending]⟩ hrecord rfl rfl le_rfl
      have hheld := hfits.held hlive
      rw [hplace] at hheld
      exact hheld
  · next m owner f hplace =>
    refine h.go hi ⟨fun _ => ?_, fun _ _ _ _ c hc => ?_, by simp [Place.pending]⟩
    · have hheld := hfits.held hlive
      rw [hplace] at hheld
      exact hheld
    · cases hc
      rfl
  · next m owner f current hplace =>
    have hheld := hfits.held hlive
    rw [hplace] at hheld
    have hreleasing : ∀ (t : Option ℕ), (∀ c ∈ t, c < w.written.length) →
        Sound cfg (w.go i p (.releasing owner f t)) := fun t ht =>
      h.go hi ⟨fun _ => hheld, fun _ _ _ _ c hc => (by cases hc), ht⟩
    dsimp only
    split
    · exact hreleasing none (by simp)
    · next draft hdraft =>
      split
      · exact hreleasing none (by simp)
      · have hread : current = w.read cfg := hfits.current hlive m owner f current hplace
        refine h.advance (.releasing owner f (if a.fails then none else
          some w.written.length)) hi rfl ⟨fun _ => hheld, fun _ _ _ _ c hc => (by cases hc), fun t ht => ?_⟩ ?_ ?_ ?_
        · have ht : t ∈ if a.fails then none else some w.written.length := ht
          split at ht
          · cases ht
          · cases ht
            simp
        · -- The process that writes is inside, so no other has read what it is going to write.
          intro j q hne hq hfit
          refine .free (fun hj => ?_) fun t ht => (hfit.pending t ht).trans_le (by simp)
          by_contra hn
          refine hne (hfit.alone hfits hj hlive (Option.ne_none_iff_isSome.mp hn) ?_)
          rw [hplace]
          rfl
        · have hdraft : (⟨m, a.now⟩ : Change β).draft (w.read cfg) = some draft := hread ▸ hdraft
          rw [List.foldl_append, ← h.replay, List.foldl_cons, List.foldl_nil, Change.apply, hdraft]
          rfl
        · exact fun t ht => (h.resolved t ht).trans_le (by simp)
  · next owner f written hplace =>
    have hpending := hfits.pending
    rw [hplace] at hpending
    split
    · exact h.finish hi hpending
    · split
      · refine h.go hi ⟨fun _ => ?_, fun _ _ _ _ c hc => (by cases hc), hpending⟩
        have hheld := hfits.held hlive
        rw [hplace] at hheld
        exact hheld
      · exact h.finish hi hpending
  · next f written hplace =>
    have hpending := hfits.pending
    rw [hplace] at hpending
    split
    · exact h.leave hi rfl rfl
    · refine Sound.unlock (h.finish hi hpending) fun j q hq hj => ?_
      have hlt := (List.getElem_of_getElem? hi).1
      rcases eq_or_ne j i with rfl | hne
      · rw [World.finish, World.go, List.getElem?_set_self hlt] at hq
        cases Option.some.inj hq
        rfl
      · rw [World.finish, World.go, List.getElem?_set_ne hne.symm] at hq
        by_contra hn
        refine hne ((h.fits j q hq).alone hfits hj hlive (Option.ne_none_iff_isSome.mp hn) ?_)
        rw [hplace]
        rfl

/-- What was written stays written. -/
theorem written_call : w.written <+: (w.call cfg i p a).written := by
  have hsame : w.written <+: w.written := List.prefix_refl _
  unfold World.call
  split
  · exact hsame
  · split
    · exact hsame
    · split <;> exact hsame
  · split
    · exact hsame
    · split
      · exact hsame
      · split <;> exact hsame
  · split <;> exact hsame
  · split <;> exact hsame
  · split <;> exact hsame
  · split <;> exact hsame
  · split <;> exact hsame
  · exact hsame
  · dsimp only
    split
    · exact hsame
    · split
      · exact hsame
      · exact List.prefix_append _ _
  · split
    · exact hsame
    · split <;> exact hsame
  · split <;> exact hsame

/-! ### Whole runs -/

theorem sound_start : Sound cfg (.start : World β) :=
  ⟨by simp [World.start], rfl, by simp [World.start]⟩

/-- ONE STEP keeps the world sound. -/
theorem sound_step (e : Event β) (h : Sound cfg w) (hordered : Orderly w e) :
    Sound cfg (World.step cfg w e) := by
  cases e with
  | spawn pid =>
    simp only [World.step]
    split
    · refine ⟨fun i p hp => ?_, h.replay, h.resolved⟩
      rcases lt_or_ge i w.processes.length with hi | hi
      · rw [List.getElem?_append_left hi] at hp
        exact (h.fits i p hp).congr rfl rfl le_rfl
      · rw [List.getElem?_append_right hi] at hp
        obtain rfl := List.mem_singleton.mp (List.mem_of_getElem? hp)
        exact .free (fun _ => rfl) (by simp [Place.pending])
    · exact h
  | crash i =>
    simp only [World.step]
    split
    · next p hp =>
      refine ⟨fun j q hq => ?_, h.replay, h.resolved⟩
      rcases eq_or_ne j i with rfl | hne
      · rw [List.getElem?_set_self (List.getElem_of_getElem? hp).1] at hq
        cases hq
        exact .free (fun hj => by cases hj) (h.fits _ p hp).pending
      · rw [List.getElem?_set_ne hne.symm] at hq
        exact (h.fits j q hq).congr rfl rfl le_rfl
    · exact h
  | transaction i m owner now =>
    simp only [World.step]
    split
    · next p hp =>
      split
      · split
        · exact h.leave hp rfl rfl
        · exact h
      · exact h
    · exact h
  | step i a =>
    simp only [World.step]
    split
    · next p hp =>
      split
      · next hlive => exact sound_call h hp hlive hordered
      · exact h
    · exact h

theorem written_step (e : Event β) : w.written <+: (World.step cfg w e).written := by
  have hsame : w.written <+: w.written := List.prefix_refl _
  cases e with
  | spawn pid =>
    simp only [World.step]
    split <;> exact hsame
  | crash i =>
    simp only [World.step]
    split <;> exact hsame
  | transaction i m owner now =>
    simp only [World.step]
    split
    · split
      · split <;> exact hsame
      · exact hsame
    · exact hsame
  | step i a =>
    simp only [World.step]
    split
    · split
      · exact written_call
      · exact hsame
    · exact hsame

theorem written_run (es : List (Event β)) : w.written <+: (es.foldl (World.step cfg) w).written := by
  induction es generalizing w with
  | nil => exact List.prefix_refl _
  | cons e es ih => exact (written_step e).trans ih

/-- ONE AT A TIME: in every run in which no lock file of a running process is unlinked as stale, no
    two running processes are inside a transaction at once; what is read is what all transactions
    that were written make of the default one after the other; and a transaction that has resolved
    is one of them, then and at any later time. -/
theorem exclusive (cfg : Config β) (es : List (Event β))
    (h : Runs.Along (World.step cfg) Orderly .start es) :
    (∀ i j, (run cfg es).inside i → (run cfg es).inside j → i = j) ∧
    (run cfg es).read cfg = (run cfg es).written.foldl Change.apply cfg.defaultState ∧
    ∀ past rest, es = past ++ rest → (run cfg past).written <+: (run cfg es).written ∧
      ∀ t ∈ (run cfg past).resolved, t < (run cfg past).written.length := by
  have hkeep : ∀ past rest, es = past ++ rest → Sound cfg (run cfg past) := by
    rintro past rest rfl
    exact (Runs.Along.append.mp h).1.keeps sound_start fun w e hw he => sound_step e hw he
  have hsound := hkeep es [] (List.append_nil es).symm
  refine ⟨?_, hsound.replay, fun past rest hes => ⟨?_, (hkeep past rest hes).resolved⟩⟩
  · rintro i j ⟨p, hp, hpl, hpi⟩ ⟨q, hq, hql, hqi⟩
    exact (hsound.fits i p hp).alone (hsound.fits j q hq) hpl hql (Place.holds_of_inside hpi)
      (Place.holds_of_inside hqi)
  · rw [hes, run, run, List.foldl_append]
    exact written_run rest

/-! ### Two processes that judge the same lock file -/

/-- A counter, five seconds for a lock, and half a minute until it is stale. -/
def counter : Config ℕ := ⟨⟨none, none, 0⟩, 5000, 30000, by decide, by decide⟩

def increment : State ℕ → Option (State ℕ) := fun s => some { s with body := s.body + 1 }

/-- A call that goes well, where no other process has the pid. -/
def goes (i now : ℕ) : Event ℕ := .step i ⟨now, false, false, false⟩

/-- Process 0 crashes with the lock; half a minute later, 1 and 2 both find its lock file stale. -/
def twoJudges : List (Event ℕ) :=
  [.spawn 10, .spawn 11, .spawn 12,
    .transaction 0 increment 100 0, goes 0 0, goes 0 0, .crash 0,
    .transaction 1 increment 101 30000, .transaction 2 increment 102 30000,
    goes 1 30000, goes 1 30000, goes 1 30000, goes 1 30000,
    goes 2 30000, goes 2 30000, goes 2 30000, goes 2 30000]

/-- 1 takes over and enters; then 2 unlinks the lock file of 1, and enters as well. -/
def twoTakeovers : List (Event ℕ) :=
  twoJudges ++ [goes 1 30000, goes 1 30000, goes 1 30000, goes 2 30000, goes 2 30000, goes 2 30000]

/-- Both read the counter, and both write. -/
def lostIncrement : List (Event ℕ) :=
  twoTakeovers ++ [goes 1 30000, goes 2 30000, goes 1 30000, goes 2 30000]

theorem two_inside :
    (¬∀ (cfg : Config ℕ) (es : List (Event ℕ)) (i j : ℕ),
      (run cfg es).inside i → (run cfg es).inside j → i = j) ∧
    ¬∀ (cfg : Config ℕ) (es : List (Event ℕ)),
      (run cfg es).read cfg = (run cfg es).written.foldl Change.apply cfg.defaultState := by
  constructor
  · intro h
    have h₁ : (run counter twoTakeovers).inside 1 := ⟨_, rfl, rfl, rfl⟩
    have h₂ : (run counter twoTakeovers).inside 2 := ⟨_, rfl, rfl, rfl⟩
    exact absurd (h counter twoTakeovers 1 2 h₁ h₂) (by decide)
  · intro h
    have hbody := congrArg State.body (h counter lostIncrement)
    exact absurd hbody (by decide)

/-- Process 1 finds a stale lock file, takes over and increments. -/
def oneTakeover : List (Event ℕ) :=
  [.spawn 10, .spawn 11, .transaction 0 increment 100 0, goes 0 0, goes 0 0, .crash 0,
    .transaction 1 increment 101 30000, goes 1 30000, goes 1 30000, goes 1 30000, goes 1 30000,
    goes 1 30000, goes 1 30000, goes 1 30000, goes 1 30000, goes 1 30000, goes 1 30000, goes 1 30000]

theorem exclusive_takeover : (run counter oneTakeover).resolved = [0] ∧
    (run counter oneTakeover).read counter =
      (run counter oneTakeover).written.foldl Change.apply counter.defaultState :=
  ⟨rfl, (exclusive counter oneTakeover (by decide)).2.1⟩

end Truyn.Store
