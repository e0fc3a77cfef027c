import Truyn.Schemes.Async

/-! sdk:local-node | local-node.ts: the events of a local node, and who waits for them

    A call of `waitForEvent` takes a pending event or waits; a pump asks the runtime for events while
    somebody waits, and gives each one to the first waiter it matches, or keeps it. At most one pump runs,
    and what the runtime answered it was given away once or is pending in the order of arrival
    (`events_kept`). -/

namespace Truyn.LocalNode

open Async

variable {α : Type}

inductive Outcome (α : Type)
  | resolved (event : α)
  | cancelled
  | deadlineExceeded
  /-- The error of the runtime. -/
  | failed

/-- A call that waits; `call` numbers the calls. -/
structure EventWaiter (α : Type) where
  call : ℕ
  predicate : α → Bool

structure Client (α : Type) where
  pendingEvents : List α := []
  eventWaiters : List (EventWaiter α) := []
  /-- `eventPumpPromise` is not null. -/
  pumping : Bool := false
  closed : Bool := false
  /-- What the calls have come to. -/
  settled : List (EventWaiter α × Outcome α) := []
  calls : ℕ := 0

/-- A pump, and what it awaits. -/
inductive Pump
  | nextSocketEvent
  | sleep
  | poll
  /-- The loop has ended; `finally` is still to come. -/
  | finally

/-- What happens, and what the runtime answers. -/
inductive Input (α : Type)
  | waitForEvent (predicate : α → Bool) (aborted : Bool)
  | timeout (call : ℕ)
  | abort (call : ℕ)
  | close
  | event (event : Option α)
  | socketTimeout
  | socketClosed
  | socketError
  | polled (events : List α)
  | pollError
  | awake

/-- The events that a pump obtains with an input. -/
def Input.events : Input α → List α
  | .event e => e.toList
  | .polled l => l
  | _ => []

namespace Client

/-- `socket`: the runtime has `nextSocketEvent`. -/
def runEventPump (socket : Bool) (s : Client α) : Pump :=
  if !s.closed && !s.eventWaiters.isEmpty then if socket then .nextSocketEvent else .poll else .finally

def settle (s : Client α) (w : EventWaiter α) (o : Outcome α) : Client α :=
  { s with
    eventWaiters := s.eventWaiters.eraseP fun v => v.call = w.call
    settled := s.settled ++ [(w, o)] }

def rejectAll (s : Client α) (o : Outcome α) : Client α :=
  { s with eventWaiters := [], settled := s.settled ++ s.eventWaiters.map fun w => (w, o) }

def dispatchEvent (s : Client α) (event : α) : Client α :=
  match s.eventWaiters.find? fun w => w.predicate event with
  | some w => s.settle w (.resolved event)
  | none => { s with pendingEvents := s.pendingEvents ++ [event] }

def ensureEventPump (socket : Bool) (s : Client α) : Client α × List Pump :=
  if s.closed || s.pumping || s.eventWaiters.isEmpty then (s, [])
  else ({ s with pumping := true }, [s.runEventPump socket])

def expire (s : Client α) (call : ℕ) (o : Outcome α) : Client α :=
  match s.eventWaiters.find? fun w => w.call = call with
  | some w => s.settle w o
  | none => s

/-- Nothing is awaited before the second look at what is pending, so it finds nothing new. -/
def waitForEvent (socket : Bool) (s : Client α) (predicate : α → Bool) (aborted : Bool) :
    Client α × List Pump :=
  let w : EventWaiter α := ⟨s.calls, predicate⟩
  let s := { s with calls := s.calls + 1 }
  if aborted then ({ s with settled := s.settled ++ [(w, .cancelled)] }, [])
  else
    match s.pendingEvents.find? predicate with
    | some event =>
      ({ s with
        pendingEvents := s.pendingEvents.eraseP predicate
        settled := s.settled ++ [(w, .resolved event)] }, [])
    | none =>
      if s.closed then ({ s with settled := s.settled ++ [(w, .cancelled)] }, [])
      else ensureEventPump socket { s with eventWaiters := s.eventWaiters ++ [w] }

def close (s : Client α) : Client α :=
  if s.closed then s else ({ s with closed := true } : Client α).rejectAll .cancelled

end Client

/-- One segment of a pump or of a call. -/
def react (socket : Bool) : Machine (Client α) Pump (Input α)
  | s, none, .waitForEvent predicate aborted => some (s.waitForEvent socket predicate aborted)
  | s, none, .timeout call => some (s.expire call .deadlineExceeded, [])
  | s, none, .abort call => some (s.expire call .cancelled, [])
  | s, none, .close => some (s.close, [])
  | s, some .nextSocketEvent, .event event =>
    let s := event.elim s s.dispatchEvent
    some (s, [s.runEventPump socket])
  | s, some .nextSocketEvent, .socketTimeout => some (s, [s.runEventPump socket])
  | s, some .nextSocketEvent, .socketClosed => some (s, [.sleep])
  | s, some .nextSocketEvent, .socketError => some (s, [.poll])
  | s, some .sleep, .awake => some (s, [s.runEventPump socket])
  | s, some .poll, .polled events =>
    let s := events.foldl Client.dispatchEvent s
    some (s, [s.runEventPump socket])
  | s, some .poll, .pollError => some (s.rejectAll .failed, [.finally])
  | s, some .finally, .awake => some (({ s with pumping := false } : Client α).ensureEventPump socket)
  | _, _, _ => none

/-- A client beside the events that its pumps have obtained, as they come in. -/
structure Heard (α : Type) where
  client : Client α := {}
  obtained : List α := []

def listen (socket : Bool) : Machine (Heard α) Pump (Input α)
  | ⟨s, obtained⟩, pump, input =>
    (react socket s pump input).map fun r => (⟨r.1, obtained ++ input.events⟩, r.2)

/-- The events that calls have got. -/
def delivered (l : List (EventWaiter α × Outcome α)) : List α :=
  l.filterMap fun p => match p.2 with
    | .resolved event => some event
    | _ => none

/-- What holds of a client in every state. -/
structure Kept (obtained : List α) (s : Client α) : Prop where
  /-- What was obtained was given away or is pending. -/
  account : obtained.Perm (s.pendingEvents ++ delivered s.settled)
  order : s.pendingEvents.Sublist obtained
  /-- Each call waits or has come to one end. -/
  once : (s.eventWaiters.map EventWaiter.call ++ s.settled.map fun p => p.1.call).Perm
    (List.range s.calls)
  matched : ∀ p ∈ s.settled, ∀ event, p.2 = .resolved event → p.1.predicate event = true
  /-- Nobody waits for what is pending. -/
  unclaimed : ∀ w ∈ s.eventWaiters, ∀ event ∈ s.pendingEvents, w.predicate event = false

variable {obtained : List α} {s : Client α} {socket : Bool} {w : EventWaiter α} {o : Outcome α}

theorem delivered_append (l m : List (EventWaiter α × Outcome α)) :
    delivered (l ++ m) = delivered l ++ delivered m := List.filterMap_append

theorem mem_settled_concat {p : EventWaiter α × Outcome α}
    (hp : p ∈ s.settled ++ [(w, o)]) : p ∈ s.settled ∨ p = (w, o) := by
  rcases List.mem_append.mp hp with hp | hp
  · exact .inl hp
  · exact .inr (List.mem_singleton.mp hp)

/-- A waiter comes to an end with an event that was `extra`, or without one. -/
theorem Kept.settle (h : Kept obtained s) (hw : w ∈ s.eventWaiters) {extra : List α}
    (hextra : delivered [(w, o)] = extra) (hmatch : ∀ event ∈ extra, w.predicate event = true) :
    Kept (obtained ++ extra) (s.settle w o) where
  account := by
    show (obtained ++ extra).Perm (s.pendingEvents ++ delivered (s.settled ++ [(w, o)]))
    rw [delivered_append, hextra, ← List.append_assoc]
    exact h.account.append_right extra
  order := h.order.trans (List.sublist_append_left _ _)
  once := by
    obtain ⟨v, l₁, l₂, -, hv, hl, herase⟩ :=
      List.exists_of_eraseP hw (p := fun v => v.call = w.call) (by simp)
    have hcall : v.call = w.call := by simpa using hv
    refine List.Perm.trans ?_ h.once
    show (((s.eventWaiters.eraseP fun v => v.call = w.call).map EventWaiter.call) ++
      (s.settled ++ [(w, o)]).map fun p => p.1.call).Perm _
    rw [herase, hl]
    simp only [List.map_append, List.map_cons, List.map_nil, hcall, List.append_assoc, List.cons_append]
    refine List.Perm.append_left _ ?_
    rw [← List.append_assoc]
    exact List.perm_append_singleton _ _
  matched := by
    intro p hp event hevent
    rcases mem_settled_concat hp with hp | rfl
    · exact h.matched p hp event hevent
    · refine hmatch event ?_
      obtain rfl : o = .resolved event := hevent
      rw [← hextra]
      exact List.mem_singleton.mpr rfl
  unclaimed v hv := h.unclaimed v ((List.eraseP_sublist).subset hv)

theorem Kept.dispatchEvent (h : Kept obtained s) (event : α) :
    Kept (obtained ++ [event]) (s.dispatchEvent event) := by
  unfold Client.dispatchEvent
  cases hfind : s.eventWaiters.find? fun w => w.predicate event with
  | some w =>
    have hmatch : w.predicate event = true := by simpa using List.find?_some hfind
    exact h.settle (List.mem_of_find?_eq_some hfind) rfl fun e he => List.mem_singleton.mp he ▸ hmatch
  | none =>
    have hnone := List.find?_eq_none.mp hfind
    refine ⟨?_, h.order.append (List.Sublist.refl _), h.once, h.matched, ?_⟩
    · refine (h.account.append_right [event]).trans ?_
      rw [List.append_assoc, List.append_assoc]
      exact (List.perm_append_comm).append_left _
    · intro w hw e he
      rcases List.mem_append.mp he with he | he
      · exact h.unclaimed w hw e he
      · obtain rfl := List.mem_singleton.mp he
        simpa using hnone w hw

theorem Kept.expire (h : Kept obtained s) (call : ℕ)
    (ho : ∀ w : EventWaiter α, delivered [(w, o)] = []) : Kept obtained (s.expire call o) := by
  unfold Client.expire
  cases hfind : s.eventWaiters.find? fun w => w.call = call with
  | some w =>
    have hsettled := h.settle (List.mem_of_find?_eq_some hfind) (ho w) (by simp)
    rwa [List.append_nil] at hsettled
  | none => exact h

theorem Kept.rejectAll (h : Kept obtained s) (ho : ∀ w : EventWaiter α, delivered [(w, o)] = []) :
    Kept obtained (s.rejectAll o) where
  account := by
    have hnone : ∀ l : List (EventWaiter α), delivered (l.map fun w => (w, o)) = [] := by
      intro l
      induction l with
      | nil => rfl
      | cons w l ih =>
        have := delivered_append [(w, o)] (l.map fun w => (w, o))
        rwa [ho, ih] at this
    show obtained.Perm (s.pendingEvents ++ delivered (s.settled ++ _))
    rw [delivered_append, hnone, List.append_nil]
    exact h.account
  order := h.order
  once := by
    show (([] : List (EventWaiter α)).map EventWaiter.call ++
      (s.settled ++ s.eventWaiters.map fun w => (w, o)).map fun p => p.1.call).Perm _
    rw [List.map_append, List.map_map, List.map_nil, List.nil_append]
    exact List.perm_append_comm.trans h.once
  matched := by
    intro p hp event hevent
    rcases List.mem_append.mp hp with hp | hp
    · exact h.matched p hp event hevent
    · obtain ⟨w, -, rfl⟩ := List.mem_map.mp hp
      have := ho w
      obtain rfl : o = .resolved event := hevent
      cases this
  unclaimed := by simp [Client.rejectAll]

/-- A call that comes to its end at once. -/
theorem Kept.answered (h : Kept obtained s) {pending : List α} {predicate : α → Bool}
    (hpending : s.pendingEvents.Perm (pending ++ delivered [((⟨s.calls, predicate⟩ : EventWaiter α), o)]))
    (hsub : pending.Sublist s.pendingEvents)
    (hmatch : ∀ event, o = .resolved event → predicate event = true) :
    Kept obtained { s with
      calls := s.calls + 1
      pendingEvents := pending
      settled := s.settled ++ [(⟨s.calls, predicate⟩, o)] } where
  account := by
    rw [delivered_append]
    refine h.account.trans ((hpending.append_right _).trans ?_)
    rw [List.append_assoc]
    exact (List.perm_append_comm).append_left _
  order := hsub.trans h.order
  once := by
    rw [List.map_append, ← List.append_assoc, List.range_succ]
    exact h.once.append_right _
  matched := by
    intro p hp event hevent
    rcases mem_settled_concat hp with hp | rfl
    · exact h.matched p hp event hevent
    · exact hmatch event hevent
  unclaimed w hw e he := h.unclaimed w hw e (hsub.subset he)

theorem Kept.waiting (h : Kept obtained s) {predicate : α → Bool}
    (hnone : ∀ event ∈ s.pendingEvents, predicate event = false) :
    Kept obtained { s with
      calls := s.calls + 1
      eventWaiters := s.eventWaiters ++ [⟨s.calls, predicate⟩] } where
  __ := h
  once := by
    rw [List.map_append, List.range_succ, List.append_assoc]
    refine List.Perm.trans ?_ (h.once.append_right [s.calls])
    rw [List.append_assoc]
    exact (List.perm_append_comm).append_left _
  unclaimed := by
    intro w hw
    rcases List.mem_append.mp hw with hw | hw
    · exact h.unclaimed w hw
    · obtain rfl := List.mem_singleton.mp hw
      exact hnone

theorem perm_eraseP {l : List α} {predicate : α → Bool} {event : α}
    (h : l.find? predicate = some event) : l.Perm (event :: l.eraseP predicate) := by
  induction l with
  | nil => cases h
  | cons e l ih =>
    by_cases he : predicate e = true
    · rw [List.find?_cons_of_pos he] at h
      rw [List.eraseP_cons_of_pos he, Option.some.inj h]
    · rw [List.find?_cons_of_neg he] at h
      rw [List.eraseP_cons_of_neg he]
      exact ((ih h).cons e).trans (.swap _ _ _)

/-- The pumps that run, and that one runs while somebody waits. -/
structure Pumped (s : Client α) (pumps : ℕ) : Prop where
  one : pumps = s.pumping.toNat
  awaited : s.closed = false → s.eventWaiters ≠ [] → s.pumping = true

theorem Kept.ensureEventPump (h : Kept obtained s) :
    Kept obtained (s.ensureEventPump socket).1 := by
  unfold Client.ensureEventPump
  split_ifs
  · exact h
  · exact { h with }

variable {pumps : ℕ}

theorem Pumped.ensureEventPump (hone : pumps = s.pumping.toNat) :
    Pumped (s.ensureEventPump socket).1 (pumps + (s.ensureEventPump socket).2.length) := by
  unfold Client.ensureEventPump
  cases hclosed : s.closed <;> cases hpumping : s.pumping <;> cases hempty : s.eventWaiters <;>
    constructor <;> simp_all

theorem Kept.waitForEvent (h : Kept obtained s) (predicate : α → Bool) (aborted : Bool) :
    Kept obtained (s.waitForEvent socket predicate aborted).1 := by
  unfold Client.waitForEvent
  have hrefused : Kept obtained { s with
      calls := s.calls + 1
      settled := s.settled ++ [(⟨s.calls, predicate⟩, .cancelled)] } :=
    h.answered (by simp [delivered]) (List.Sublist.refl _) (by simp)
  cases aborted with
  | true => exact hrefused
  | false =>
    cases hfind : s.pendingEvents.find? predicate with
    | some event =>
      have hmatch := List.find?_some hfind
      simp only [Bool.false_eq_true, if_false, hfind]
      refine h.answered ?_ List.eraseP_sublist fun e he => ?_
      · exact (perm_eraseP hfind).trans (List.perm_append_singleton _ _).symm
      · obtain rfl := Outcome.resolved.inj he
        exact hmatch
    | none =>
      simp only [Bool.false_eq_true, if_false, hfind]
      split_ifs
      · exact hrefused
      · exact (h.waiting fun event he => by simpa using List.find?_eq_none.mp hfind event he).ensureEventPump

theorem Kept.foldl (h : Kept obtained s) (events : List α) :
    Kept (obtained ++ events) (events.foldl Client.dispatchEvent s) := by
  induction events generalizing obtained s with
  | nil => simpa using h
  | cons event events ih => simpa using ih (h.dispatchEvent event)

/-- Where no waiter joins, a pump that was needed is still there. -/
theorem Pumped.mono {s' : Client α} (h : Pumped s pumps) (hpumping : s'.pumping = s.pumping)
    (hclosed : s'.closed = false → s.closed = false)
    (hwaiters : s.eventWaiters = [] → s'.eventWaiters = []) : Pumped s' pumps :=
  ⟨hpumping ▸ h.one, fun hc hw => hpumping ▸ h.awaited (hclosed hc) fun hnil => hw (hwaiters hnil)⟩

theorem Pumped.settle (h : Pumped s pumps) : Pumped (s.settle w o) pumps :=
  h.mono rfl id fun hnil => by rw [Client.settle, hnil]; rfl

theorem Pumped.dispatchEvent (h : Pumped s pumps) (event : α) :
    Pumped (s.dispatchEvent event) pumps := by
  unfold Client.dispatchEvent
  split
  · exact (h.settle (o := .resolved event)).mono rfl id id
  · exact h.mono rfl id id

theorem Pumped.foldl (h : Pumped s pumps) (events : List α) :
    Pumped (events.foldl Client.dispatchEvent s) pumps := by
  induction events generalizing s with
  | nil => exact h
  | cons event events ih => exact ih (h.dispatchEvent event)

theorem Pumped.waitForEvent (h : Pumped s pumps) (predicate : α → Bool) (aborted : Bool) :
    Pumped (s.waitForEvent socket predicate aborted).1
      (pumps + (s.waitForEvent socket predicate aborted).2.length) := by
  unfold Client.waitForEvent
  cases aborted with
  | true => exact h.mono rfl id id
  | false =>
    cases hfind : s.pendingEvents.find? predicate with
    | some event =>
      simp only [Bool.false_eq_true, if_false, hfind]
      exact h.mono rfl id id
    | none =>
      simp only [Bool.false_eq_true, if_false, hfind]
      split_ifs
      · exact h.mono rfl id id
      · exact Pumped.ensureEventPump h.one

theorem Pumped.expire (h : Pumped s pumps) (call : ℕ) : Pumped (s.expire call o) pumps := by
  unfold Client.expire
  split
  · exact h.settle
  · exact h

theorem Pumped.rejectAll (h : Pumped s pumps) : Pumped (s.rejectAll o) pumps :=
  h.mono rfl id fun _ => rfl

/-- One segment keeps the account, and one pump for those who wait; `n` are the other pumps. -/
theorem react_kept {t : Option Pump} {input : Input α} {s' : Client α} {pumps : List Pump} {n : ℕ}
    (hreact : react socket s t input = some (s', pumps)) (h : Kept obtained s)
    (hp : Pumped s (n + t.toList.length)) :
    Kept (obtained ++ input.events) s' ∧ Pumped s' (n + pumps.length) := by
  have hheard : Kept (obtained ++ []) s := by rwa [List.append_nil]
  unfold react at hreact
  split at hreact
  case h_1 predicate aborted =>
    obtain ⟨rfl, rfl⟩ := Prod.mk.inj (Option.some.inj hreact)
    exact ⟨hheard.waitForEvent predicate aborted, hp.waitForEvent predicate aborted⟩
  case h_2 call =>
    cases hreact
    exact ⟨hheard.expire call fun _ => rfl, hp.expire call⟩
  case h_3 call =>
    cases hreact
    exact ⟨hheard.expire call fun _ => rfl, hp.expire call⟩
  case h_4 =>
    cases hreact
    unfold Client.close
    split_ifs
    · exact ⟨hheard, hp⟩
    · have hclosed : Kept (obtained ++ []) ({ s with closed := true } : Client α) :=
        { hheard with }
      exact ⟨hclosed.rejectAll fun _ => rfl, hp.mono rfl (fun hc => nomatch hc) fun _ => rfl⟩
  case h_5 event =>
    cases hreact
    cases event with
    | none => exact ⟨hheard, hp⟩
    | some event => exact ⟨h.dispatchEvent event, hp.dispatchEvent event⟩
  case h_10 events =>
    cases hreact
    exact ⟨h.foldl events, hp.foldl events⟩
  case h_11 =>
    cases hreact
    exact ⟨hheard.rejectAll fun _ => rfl, hp.rejectAll⟩
  case h_12 =>
    -- the pump that has ended gives up its place before another one may start
    obtain ⟨rfl, rfl⟩ := Prod.mk.inj (Option.some.inj hreact)
    have hended : Kept (obtained ++ []) ({ s with pumping := false } : Client α) :=
      { hheard with }
    have hone := hp.one
    have hn : n = 0 := by
      have := Bool.toNat_le s.pumping
      simp only [Option.toList_some, List.length_singleton] at hone
      omega
    exact ⟨hended.ensureEventPump, Pumped.ensureEventPump hn⟩
  case h_13 => cases hreact
  all_goals
    cases hreact
    exact ⟨hheard, hp⟩

/-- At most one pump runs, and it does while somebody waits; what the runtime has answered a pump was given
to one call whose predicate it satisfies, or is pending in the order of arrival. -/
theorem events_kept {sys : Sys (Heard α) Pump} (h : Runs (listen socket) free ⟨({} : Heard α), []⟩ sys) :
    sys.tasks.length ≤ 1 ∧ Kept sys.shared.obtained sys.shared.client ∧
      (sys.shared.client.closed = false → sys.shared.client.eventWaiters ≠ [] → sys.tasks ≠ []) := by
  have hinv : Kept sys.shared.obtained sys.shared.client ∧
      Pumped sys.shared.client sys.tasks.length := by
    refine h.inv (I := fun sys => Kept sys.shared.obtained sys.shared.client ∧
      Pumped sys.shared.client sys.tasks.length) ?_ ?_
    · rintro sys sys' l ⟨hkept, hpumped⟩ - hstep
      obtain ⟨t, rest, heard, pumps, -, hperm, hlisten, rfl⟩ := step_cases hstep
      obtain ⟨r, hreact, heq⟩ := Option.map_eq_some_iff.mp hlisten
      cases heq
      rw [hperm.length_eq, List.length_append, Nat.add_comm] at hpumped
      rw [List.length_append]
      exact react_kept hreact hkept hpumped
    · exact ⟨⟨.refl _, .refl _, .refl _, by simp, by simp⟩, ⟨rfl, fun _ hne => absurd rfl hne⟩⟩
  obtain ⟨hkept, hone, hawaited⟩ := hinv
  refine ⟨hone ▸ Bool.toNat_le _, hkept, fun hclosed hwaiters hnil => ?_⟩
  rw [hawaited hclosed hwaiters, hnil] at hone
  cases hone

theorem events_kept_even : ∃ sys : Sys (Heard ℕ) Pump, Runs (listen true) free ⟨{}, []⟩ sys ∧
    sys.shared.obtained = [3, 4] ∧ sys.shared.client.pendingEvents = [3] ∧ sys.tasks.length ≤ 1 ∧
    Kept sys.shared.obtained sys.shared.client := by
  obtain ⟨sys, hruns, hstate⟩ := exists_run (M := listen true) (G := free) (fun _ _ _ => true)
    (fun _ _ _ _ => trivial) (s := ⟨({} : Heard ℕ), []⟩)
    [(none, .waitForEvent (fun n => n % 2 = 0) false), (some 0, .event (some 3)),
      (some 0, .event (some 4))]
    (fun sys => sys.shared.obtained = [3, 4] ∧ sys.shared.client.pendingEvents = [3]) (by decide)
  obtain ⟨hobtained, hpending⟩ := of_decide_eq_true hstate
  exact ⟨sys, hruns, hobtained, hpending, (events_kept hruns).1, (events_kept hruns).2.1⟩

end Truyn.LocalNode
