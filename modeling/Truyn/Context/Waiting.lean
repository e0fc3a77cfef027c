import Truyn.Js.Text
import Truyn.Schemes.Along
import Truyn.Schemes.Maps
import Truyn.Schemes.Tables

/-! context:waiting | calls that wait for their results at one mailbox

    Each call of a coordinator polls the client that they all share. What it does not know is set
    aside in `unmatchedEvents`, and nobody looks there. So every answer reaches its call just when no
    call polls an answer to the need of another one (`delivers_iff`). -/

namespace Truyn.Waiting
open Runs

/-- An event of a poll; `requestId` is that of its payload, and `verified` its `verification.ok`. -/
structure Event where
  kind : JsString
  requestId : Option JsString
  sender : JsString
  verified : Bool

/-- `requestId`, where the event is a result. -/
def Event.answers (event : Event) : Option JsString :=
  if event.kind = js "RESULT" then event.requestId else none

/-- The timeout of a coordinator, and the texts of its errors. -/
structure Coordinator where
  resultTimeoutMs : ℕ
  unexpected : String
  signature : String
  provider : String
  timeout : String

/-- `DistributedContextCoordinator`. -/
def distributedContext (resultTimeoutMs : ℕ) : Coordinator where
  resultTimeoutMs
  unexpected := "distributed retrieval routed to unexpected holder"
  signature := "distributed holder RESULT signature verification failed"
  provider := "distributed holder RESULT provider mismatch"
  timeout := "distributed_context_result_timeout"

/-- `ClaimVerificationCoordinator`. -/
def claimVerification (resultTimeoutMs : ℕ) : Coordinator where
  resultTimeoutMs
  unexpected := "claim verification routed to unexpected verifier"
  signature := "claim verifier RESULT signature verification failed"
  provider := "claim verifier RESULT provider mismatch"
  timeout := "claim_verification_result_timeout"

/-- Who was asked, by the id of the need. -/
abbrev Pending := List (JsString × JsString)

abbrev Results := List (JsString × Event)

/-- A need of a call: its id is made when it is sent, and the relay answers with one. -/
inductive Need
  | unsent
  | sent (id : JsString)
  | assigned (needId : JsString)

def Need.id : Need → Option JsString
  | .unsent => none
  | .sent id | .assigned id => some id

/-- What the relay has answered. -/
def Need.assignment : Need → Option JsString
  | .assigned needId => some needId
  | _ => none

/-- Where a call is: its needs go out, it polls, it sleeps, or it has ended. -/
inductive Phase
  | needing (needs : List (JsString × Need))
  | polling (deadline : ℕ) (pending : Pending) (results : Results)
  | sleeping (deadline : ℕ) (pending : Pending) (results : Results)
  | returned (results : Results)
  | timedOut (reason : String) (pending : Pending) (results : Results)
  | rejected (reason : String)

structure State where
  calls : List Phase := []
  unmatchedEvents : List Event := []

inductive Move
  | call (providers : List JsString)
  /-- The request of a need goes out, or it is answered. -/
  | sent (call : ℕ) (i : ℕ) (id : JsString)
  | assigned (call : ℕ) (i : ℕ) (needId provider : JsString)
  | fails (call : ℕ) (reason : String)
  | enter (call : ℕ) (now : ℕ)
  | polled (call : ℕ) (events : List Event)
  | wake (call : ℕ) (now : ℕ)

/-! ### The loop -/

/-- `new Map(assignments.map((assignment) => [assignment.needId, assignment]))`. -/
def pendingOf (needs : List (JsString × Need)) : Pending :=
  needs.foldl (fun m p => match p.2.assignment with
    | some needId => Maps.set needId p.1 m
    | none => m) []

variable (C : Coordinator)

/-- The condition of the loop, and what comes after it. -/
def loop (now deadline : ℕ) (pending : Pending) (results : Results) : Phase :=
  if pending.isEmpty then .returned results
  else if now < deadline then .polling deadline pending results
  else .timedOut C.timeout pending results

/-- The events of one poll; also what is set aside, up to the first that throws. -/
def receive : List Event → Pending → Results → Except String (Pending × Results) × List Event
  | [], pending, results => (.ok (pending, results), [])
  | event :: events, pending, results =>
    match event.answers.bind fun id => (Maps.get pending id).map fun provider => (id, provider) with
    | none =>
      let (outcome, aside) := receive events pending results
      (outcome, event :: aside)
    | some (id, provider) =>
      if !event.verified then (.error C.signature, [])
      else if event.sender ≠ provider then (.error C.provider, [])
      else receive events (Maps.delete id pending) (Maps.set id event results)

def State.put (s : State) (c : ℕ) (phase : Phase) : State := { s with calls := s.calls.set c phase }

/-- A move that does not fit the state does nothing. -/
def step (s : State) : Move → State
  | .call providers =>
    { s with calls := s.calls ++ [.needing (providers.map fun provider => (provider, .unsent))] }
  | .sent c i id =>
    match s.calls[c]? with
    | some (.needing needs) =>
      match needs[i]? with
      | some (expected, .unsent) => s.put c (.needing (needs.set i (expected, .sent id)))
      | _ => s
    | _ => s
  | .assigned c i needId provider =>
    match s.calls[c]? with
    | some (.needing needs) =>
      match needs[i]? with
      | some (expected, .sent _) =>
        if provider ≠ expected then s.put c (.rejected C.unexpected)
        else s.put c (.needing (needs.set i (expected, .assigned needId)))
      | _ => s
    | _ => s
  | .fails c reason =>
    match s.calls[c]? with
    | some (.needing _) | some (.polling ..) => s.put c (.rejected reason)
    | _ => s
  | .enter c now =>
    match s.calls[c]? with
    | some (.needing needs) =>
      if needs.all fun p => p.2.assignment.isSome then
        s.put c (loop C now (now + C.resultTimeoutMs) (pendingOf needs) [])
      else s
    | _ => s
  | .polled c events =>
    match s.calls[c]? with
    | some (.polling deadline pending results) =>
      let (outcome, aside) := receive C events pending results
      let phase : Phase := match outcome with
        | .error reason => .rejected reason
        | .ok (pending, results) =>
          if pending.isEmpty then .returned results else .sleeping deadline pending results
      { s with unmatchedEvents := s.unmatchedEvents ++ aside }.put c phase
    | _ => s
  | .wake c now =>
    match s.calls[c]? with
    | some (.sleeping deadline pending results) => s.put c (loop C now deadline pending results)
    | _ => s

/-! ### What is wanted -/

/-- The call has sent the need, and no answer has reached it. -/
def Phase.wants (id : JsString) : Phase → Bool
  | .needing needs => needs.any fun p => p.2.id = some id
  | .polling _ pending _ | .sleeping _ pending _ => (Maps.get pending id).isSome
  | _ => false

def State.Wants (s : State) (c : ℕ) (id : JsString) : Prop :=
  ∃ phase, s.calls[c]? = some phase ∧ phase.wants id = true

def State.Polling (s : State) (c : ℕ) : Prop :=
  ∃ deadline pending results, s.calls[c]? = some (.polling deadline pending results)

/-- The first of the events that answers the need. -/
def answer (events : List Event) (id : JsString) : Option Event :=
  events.find? fun event => event.answers = some id

/-- The call has the event as the answer to its need, or it has rejected. -/
def Phase.Received (id : JsString) (event : Event) : Phase → Prop
  | .polling _ _ results | .sleeping _ _ results | .returned results | .timedOut _ _ results =>
    Maps.get results id = some event
  | .rejected _ => True
  | .needing _ => False

/-- Call `d` has polled the answer `event` to a need that call `c` was waiting for. -/
def Answered (s : State) (t : Move) (c : ℕ) (id : JsString) (event : Event) (d : ℕ) : Prop :=
  ∃ events, t = .polled d events ∧ s.Polling d ∧ s.Wants c id ∧ answer events id = some event

structure Delivers (ts : List Move) : Prop where
  /-- Whatever answers a need of a call that waits for it has reached the call. -/
  delivered : ∀ past t rest, ts = past ++ t :: rest → ∀ c id event d,
    Answered (past.foldl (step C) {}) t c id event d →
    ∃ phase, (ts.foldl (step C) {}).calls[c]? = some phase ∧ phase.Received id event
  /-- A call that has timed out lacks an answer that was not polled while it waited. -/
  timely : ∀ (c : ℕ) reason pending results,
    (ts.foldl (step C) {}).calls[c]? = some (.timedOut reason pending results) →
    ∃ id, (Maps.get pending id).isSome = true ∧ ∀ past t rest, ts = past ++ t :: rest →
      ∀ event d, ¬Answered (past.foldl (step C) {}) t c id event d

/-- Whoever polls an answer is the call that waits for it. -/
def OwnPoll (s : State) (t : Move) : Prop := ∀ c id event d, Answered s t c id event d → c = d

/-! ### One call -/

variable {C : Coordinator} {s : State} {t : Move} {c d : ℕ} {id : JsString} {event : Event}
  {events : List Event} {pending p : Pending} {results r : Results} {phase : Phase}

/-- No need is open that has an answer. -/
def Apart (pending : Pending) (results : Results) : Prop :=
  ∀ id, (Maps.get pending id).isSome = true → Maps.get results id = none

/-- The batch is taken: old answers stay, and each open need has the first answer to it. -/
theorem receive_ok (hapart : Apart pending results)
    (h : (receive C events pending results).1 = .ok (p, r)) : Apart p r ∧
    (∀ id event, Maps.get results id = some event → Maps.get r id = some event) ∧
    ∀ id event, (Maps.get pending id).isSome = true → answer events id = some event →
      Maps.get r id = some event := by
  induction events generalizing pending results with
  | nil =>
    cases Except.ok.inj h
    exact ⟨hapart, fun _ _ h => h, fun _ _ _ h => by cases h⟩
  | cons e events ih =>
    rw [receive] at h
    cases hfound : e.answers.bind fun id => (Maps.get pending id).map fun q => (id, q) with
    | none =>
      rw [hfound] at h
      obtain ⟨hapart', hold, hnew⟩ := ih hapart h
      refine ⟨hapart', hold, fun id event hopen hanswer => hnew id event hopen ?_⟩
      rw [answer, List.find?_cons_of_neg] at hanswer
      · exact hanswer
      · intro he
        obtain ⟨q, hq⟩ := Option.isSome_iff_exists.mp hopen
        rw [of_decide_eq_true he, Option.bind_some, hq] at hfound
        cases hfound
    | some q =>
      obtain ⟨i, hi, hq⟩ := Option.bind_eq_some_iff.mp hfound
      obtain ⟨provider, hprovider, rfl⟩ := Option.map_eq_some_iff.mp hq
      rw [hfound] at h
      by_cases hverified : !e.verified
      · simp [hverified] at h
      by_cases hsender : e.sender ≠ provider
      · simp [hverified, hsender] at h
      simp only [if_neg hverified, if_neg hsender] at h
      have hopen : (Maps.get pending i).isSome = true := by simp [hprovider]
      have hapart' : Apart (Maps.delete i pending) (Maps.set i e results) := by
        intro id hid
        by_cases hne : i = id
        · simp [Maps.get_delete, hne] at hid
        · rw [Maps.get_delete_ne hne] at hid
          rw [Maps.get_set_ne hne]
          exact hapart id hid
      obtain ⟨hafter, hold, hnew⟩ := ih hapart' h
      refine ⟨hafter, fun id event hevent => ?_, fun id event hid hanswer => ?_⟩
      · have hne : i ≠ id := by
          rintro rfl
          simp [hapart i hopen] at hevent
        exact hold id event (by rwa [Maps.get_set_ne hne])
      · by_cases hne : i = id
        · subst hne
          rw [answer, List.find?_cons_of_pos (by simp [hi])] at hanswer
          exact hold i event (by rw [Maps.get_set_self, hanswer])
        · rw [answer, List.find?_cons_of_neg (by simp [hi, hne])] at hanswer
          exact hnew id event (by rwa [Maps.get_delete_ne hne]) hanswer

/-- What holds of a call wherever it is. -/
def Phase.Fit : Phase → Prop
  | .polling _ pending results | .sleeping _ pending results => Apart pending results
  | .timedOut _ pending results => Apart pending results ∧ pending ≠ []
  | _ => True

theorem loop_fit {now deadline : ℕ} (h : Apart pending results) :
    (loop C now deadline pending results).Fit := by
  rw [loop]
  by_cases hempty : pending.isEmpty = true
  · rw [if_pos hempty]
    trivial
  · rw [if_neg hempty]
    split
    · exact h
    · exact ⟨h, by simpa using hempty⟩

theorem loop_received {now deadline : ℕ} (h : Maps.get results id = some event) :
    (loop C now deadline pending results).Received id event := by
  rw [loop]
  split
  · exact h
  · split <;> exact h

/-! ### One step -/

/-- A step leaves each call as it is, or goes on with it; what it has received it keeps. -/
structure Goes (s s' : State) : Prop where
  fit : (∀ phase ∈ s.calls, phase.Fit) → ∀ phase ∈ s'.calls, phase.Fit
  kept : (∀ phase ∈ s.calls, phase.Fit) → ∀ (c : ℕ) phase id event, s.calls[c]? = some phase →
    phase.Received id event → ∃ phase', s'.calls[c]? = some phase' ∧ phase'.Received id event

theorem goes_put {phase' : Phase} {s' : State} (hc : s.calls[c]? = some phase)
    (hs' : s'.calls = s.calls.set c phase') (hfit : phase.Fit → phase'.Fit)
    (hkept : phase.Fit → ∀ id event, phase.Received id event → phase'.Received id event) :
    Goes s s' where
  fit h q hq := by
    rw [hs'] at hq
    rcases List.mem_or_eq_of_mem_set hq with hq | rfl
    · exact h q hq
    · exact hfit (h phase (List.mem_of_getElem? hc))
  kept h d q id event hd hreceived := by
    rw [hs']
    by_cases hdc : c = d
    · subst hdc
      obtain rfl : phase = q := Option.some.inj (hc.symm.trans hd)
      exact ⟨phase', Tables.get_write_self hc,
        hkept (h phase (List.mem_of_getElem? hc)) id event hreceived⟩
    · exact ⟨q, Tables.get_write_other hdc hd, hreceived⟩

theorem Goes.refl : Goes s s := ⟨id, fun _ _ phase _ _ hc h => ⟨phase, hc, h⟩⟩

theorem goes_step (s : State) (t : Move) : Goes s (step C s t) := by
  cases t with
  | call providers =>
    refine ⟨fun h q hq => ?_, fun _ c phase id event hc h => ?_⟩
    · rcases List.mem_append.mp hq with hq | hq
      · exact h q hq
      · obtain rfl := List.mem_singleton.mp hq
        trivial
    · exact ⟨phase, Tables.get_push_old hc, h⟩
  | sent c i id =>
    simp only [step]
    split
    · next needs hc =>
      split
      · exact goes_put hc rfl (fun _ => trivial) fun _ _ _ h => h.elim
      · exact .refl
    · exact .refl
  | assigned c i needId provider =>
    simp only [step]
    split
    · next needs hc =>
      split
      · split
        · exact goes_put hc rfl (fun _ => trivial) fun _ _ _ h => h.elim
        · exact goes_put hc rfl (fun _ => trivial) fun _ _ _ h => h.elim
      · exact .refl
    · exact .refl
  | fails c reason =>
    simp only [step]
    split
    · next hc => exact goes_put hc rfl (fun _ => trivial) fun _ _ _ _ => trivial
    · next hc => exact goes_put hc rfl (fun _ => trivial) fun _ _ _ _ => trivial
    · exact .refl
  | enter c now =>
    simp only [step]
    split
    · next needs hc =>
      split
      · exact goes_put hc rfl (fun _ => loop_fit fun _ _ => Maps.get_nil) fun _ _ _ h => h.elim
      · exact .refl
    · exact .refl
  | polled c events =>
    simp only [step]
    split
    · next deadline pending results hc =>
      refine goes_put hc rfl (fun hfit => ?_) fun hfit id event h => ?_
      · cases hreceive : (receive C events pending results).1 with
        | error reason => trivial
        | ok q =>
          dsimp only
          split
          · trivial
          · exact (receive_ok hfit hreceive).1
      · cases hreceive : (receive C events pending results).1 with
        | error reason => trivial
        | ok q =>
          have hkept := (receive_ok hfit hreceive).2.1 id event h
          dsimp only
          split <;> exact hkept
    · exact .refl
  | wake c now =>
    simp only [step]
    split
    · next deadline pending results hc =>
      exact goes_put hc rfl loop_fit fun _ _ _ h => loop_received h
    · exact .refl

theorem fit_run (ts : List Move) : ∀ phase ∈ (ts.foldl (step C) {}).calls, phase.Fit := by
  suffices h : ∀ s : State, (∀ phase ∈ s.calls, phase.Fit) →
      ∀ phase ∈ (ts.foldl (step C) s).calls, phase.Fit from h {} nofun
  induction ts with
  | nil => exact fun _ h => h
  | cons t ts ih => exact fun s h => ih (step C s t) ((goes_step s t).fit h)

/-- What a call has received it keeps to the end of a run. -/
theorem received_run (ts : List Move) (hfit : ∀ phase ∈ s.calls, phase.Fit)
    (hc : s.calls[c]? = some phase) (h : phase.Received id event) :
    ∃ phase', (ts.foldl (step C) s).calls[c]? = some phase' ∧ phase'.Received id event := by
  induction ts generalizing s phase with
  | nil => exact ⟨phase, hc, h⟩
  | cons t ts ih =>
    obtain ⟨phase', hc', h'⟩ := (goes_step (C := C) s t).kept hfit c phase id event hc h
    exact ih ((goes_step s t).fit hfit) hc' h'

/-- A call that polls the answer to its own need has received it. -/
theorem received_own (hfit : ∀ phase ∈ s.calls, phase.Fit) (h : Answered s t c id event c) :
    ∃ phase, (step C s t).calls[c]? = some phase ∧ phase.Received id event := by
  obtain ⟨events, rfl, ⟨deadline, pending, results, hc⟩, ⟨phase, hphase, hwants⟩, hanswer⟩ := h
  cases hc.symm.trans hphase
  have hapart : Apart pending results := hfit _ (List.mem_of_getElem? hc)
  simp only [step, hc]
  refine ⟨_, Tables.get_write_self hc, ?_⟩
  cases hreceive : (receive C events pending results).1 with
  | error reason => trivial
  | ok q =>
    have hnew := (receive_ok hapart hreceive).2.2 id event hwants hanswer
    dsimp only
    split <;> exact hnew

/-- A call for which another one polls the answer has not received it. -/
theorem not_received (hfit : ∀ phase ∈ s.calls, phase.Fit) (h : Answered s t c id event d)
    (hne : c ≠ d) : ¬∃ phase, (step C s t).calls[c]? = some phase ∧ phase.Received id event := by
  obtain ⟨events, rfl, ⟨deadline, pending, results, hd⟩, ⟨phase, hphase, hwants⟩, -⟩ := h
  rintro ⟨q, hq, hreceived⟩
  simp only [step, hd] at hq
  rcases Tables.get_write hq with ⟨rfl, -⟩ | ⟨-, hq⟩
  · exact hne rfl
  · cases hphase.symm.trans hq
    have hfit := hfit phase (List.mem_of_getElem? hphase)
    cases phase with
    | needing needs => exact hreceived
    | polling deadline pending results | sleeping deadline pending results =>
      have hnone := hfit id hwants
      rw [show Maps.get results id = some event from hreceived] at hnone
      cases hnone
    | returned | timedOut | rejected => cases hwants

/-! ### Runs -/

/-- In all parts of a run the answers reach their calls, just when no call polls an answer to a need
    that another one waits for. -/
theorem delivers_iff (C : Coordinator) (ts : List Move) :
    (∀ us, us <+: ts → Delivers C us) ↔ Along (step C) OwnPoll {} ts := by
  rw [along_iff]
  constructor
  · rintro hall past t rest rfl c id event d hanswered
    by_contra hne
    have hprefix : past ++ [t] <+: past ++ t :: rest := ⟨rest, by simp⟩
    have hdelivered := (hall _ hprefix).delivered past t [] rfl c id event d hanswered
    rw [List.foldl_append] at hdelivered
    exact not_received (fit_run past) hanswered hne hdelivered
  · rintro hown us ⟨more, rfl⟩
    have hreceived : ∀ past t rest, us = past ++ t :: rest → ∀ c id event d,
        Answered (past.foldl (step C) {}) t c id event d →
        ∃ phase, (us.foldl (step C) {}).calls[c]? = some phase ∧ phase.Received id event := by
      rintro past t rest rfl c id event d hanswered
      obtain rfl : c = d := hown past t (rest ++ more) (by simp) c id event d hanswered
      obtain ⟨phase, hphase, h⟩ := received_own (fit_run past) hanswered
      rw [List.foldl_append, List.foldl_cons]
      exact received_run rest ((goes_step _ t).fit (fit_run past)) hphase h
    refine ⟨hreceived, fun c reason pending results htimeout => ?_⟩
    obtain ⟨hapart, hopen⟩ := fit_run us _ (List.mem_of_getElem? htimeout)
    obtain ⟨⟨id, provider⟩, rest, rfl⟩ := List.exists_cons_of_ne_nil hopen
    have hid : (Maps.get ((id, provider) :: rest) id).isSome = true := by simp [Maps.get_cons]
    refine ⟨id, hid, fun past t rest h event d hanswered => ?_⟩
    obtain ⟨phase, hphase, hgot⟩ := hreceived past t rest h c id event d hanswered
    cases htimeout.symm.trans hphase
    have hnone := hapart id hid
    rw [show Maps.get results id = some event from hgot] at hnone
    cases hnone

/-- The answer to the second of two calls. -/
def stray : Event := ⟨js "RESULT", some [2], [98], true⟩

/-- Two calls wait, the first polls the answer to the second, and that one times out. -/
def strayAnswer : List Move :=
  [.call [[97]], .call [[98]], .sent 0 0 [1], .sent 1 0 [2],
    .assigned 0 0 [1] [97], .assigned 1 0 [2] [98], .enter 0 0, .enter 1 0,
    .polled 0 [stray], .polled 1 [], .wake 1 10000]

/-- The first call polls while the second one waits, and sets the answer aside. -/
theorem strays (hlong : 0 < C.resultTimeoutMs) (hlate : C.resultTimeoutMs ≤ 10000) :
    ¬Delivers C strayAnswer := by
  have hbefore : ((strayAnswer.take 8).foldl (step C) {}).calls =
      [.polling C.resultTimeoutMs [([1], [97])] [], .polling C.resultTimeoutMs [([2], [98])] []] := by
    simp [strayAnswer, step, State.put, Need.assignment, pendingOf, loop, Maps.set, hlong]
  have hafter : (strayAnswer.foldl (step C) {}).calls[1]? =
      some (.timedOut C.timeout [([2], [98])] []) := by
    rw [← List.take_append_drop 8 strayAnswer, List.foldl_append]
    generalize (strayAnswer.take 8).foldl (step C) {} = s at hbefore
    simp [strayAnswer, step, hbefore, State.put, receive, loop, hlate, Event.answers, stray, Maps.get]
  intro h
  obtain ⟨id, hid, hnone⟩ := h.timely 1 _ _ _ hafter
  obtain rfl : [2] = id := by
    by_contra hne
    simp [Maps.get_cons, hne] at hid
  have hpolling := congrArg (fun calls => calls[0]?) hbefore
  have hwaiting := congrArg (fun calls => calls[1]?) hbefore
  exact hnone (strayAnswer.take 8) (.polled 0 [stray]) [.polled 1 [], .wake 1 10000] rfl stray 0
    ⟨[stray], rfl, ⟨_, _, _, hpolling⟩, ⟨_, hwaiting, rfl⟩, rfl⟩

theorem answer_strays : ¬(∀ us, us <+: strayAnswer → Delivers (distributedContext 10000) us) ∧
    ¬(∀ us, us <+: strayAnswer → Delivers (claimVerification 10000) us) :=
  ⟨fun hall => strays (by decide) le_rfl (hall strayAnswer List.prefix_rfl),
    fun hall => strays (by decide) le_rfl (hall strayAnswer List.prefix_rfl)⟩

end Truyn.Waiting
