import Truyn.A2a.Replay

/-! a2a:drain | requests that dispatch tasks, and drains that hand polled events to them

    A request creates its task, sends a NEED, and records the need's id when the answer is there. A
    drain takes the events of one poll after the other; an error ends the drain, and the rest of its
    events is gone. `log` says of every event what the store was before and after it. -/

namespace Truyn.A2a
open Trust (Value truthy strictEq)

inductive DispatchState
  | sent
  | recorded
  | failed
  deriving DecidableEq

/-- A NEED that the relay has, and the task it was sent for. -/
structure Dispatch where
  needId : JsString
  taskId : JsString
  state : DispatchState

/-- What became of a polled event; `recorded` are the needs that requests had recorded then. -/
structure Entry where
  compact : Bool
  event : Value
  dropped : Bool
  recorded : List JsString
  before : TaskStore
  after : TaskStore

structure Server where
  store : TaskStore
  issued : List JsString
  waiting : List JsString
  dispatches : List Dispatch
  batch : Bool → List Value
  log : List Entry

def Server.init : Server := ⟨.new, [], [], [], fun _ => [], []⟩

def Server.recorded (v : Server) : List JsString :=
  (v.dispatches.filter (·.state = .recorded)).map Dispatch.needId

def Server.turn (v : Server) (needId : JsString) (state : DispatchState) : Server :=
  { v with dispatches := v.dispatches.map fun d =>
      if d.needId = needId then { d with state } else d }

/-- The store that `drainTruynEvents` or `drainCompactEvents` leaves, and whether it throws. -/
def handle (H : Host) (c : Config) (s : TaskStore) (compact : Bool) (event : Value) (d : Draws) :
    TaskStore × Bool :=
  if compact then s.recordCompactEvent H c event d else s.completeFromTruynEvent H c event d

inductive Action
  | create (a : CreateArgs)
  | abandon (taskId : JsString)
  | send (taskId needId : JsString)
  | refuse (taskId : JsString) (message : Value) (uuid : JsString) (nowMs : ℤ)
  | record (needId : JsString) (providerNodeId providerTrust : Value) (nowMs : ℤ)
  | fail (needId : JsString) (message : Value) (uuid : JsString) (nowMs : ℤ)
  | poll (compact : Bool) (events : List Value)
  | handle (compact : Bool) (d : Draws)
  | prune (nowMs : ℤ)
  | cancel (taskId : JsString) (message : Value) (uuid : JsString) (nowMs : ℤ)

/-- `createTaskFromRequest` in four steps, the drains, and the calls of other requests. A NEED that
    was sent may come to be recorded, or its answer is lost and the task is rejected. -/
def serve (H : Host) (c : Config) (v : Server) : Action → Option Server
  | .create a =>
    if a.taskUuid ∈ v.issued then none
    else match v.store.create c a with
      | (store, .ok task) => some { v with
          store, issued := a.taskUuid :: v.issued, waiting := task.id :: v.waiting }
      | (store, .error _) => some { v with store }
  | .abandon taskId =>
    if taskId ∈ v.waiting then some { v with
      store := v.store.delete taskId true, waiting := v.waiting.erase taskId }
    else none
  | .send taskId needId =>
    if taskId ∈ v.waiting ∧ needId ∉ v.dispatches.map Dispatch.needId ∧ needId ≠ [] then
      some { v with
        waiting := v.waiting.erase taskId
        dispatches := ⟨needId, taskId, .sent⟩ :: v.dispatches }
    else none
  | .refuse taskId message uuid nowMs =>
    if taskId ∈ v.waiting then some { v with
      store := (v.store.reject H c taskId message uuid nowMs).getD v.store
      waiting := v.waiting.erase taskId }
    else none
  | .record needId providerNodeId providerTrust nowMs =>
    match v.dispatches.find? fun d => d.needId = needId ∧ d.state = .sent with
    | none => none
    | some d =>
      match v.store.start c d.taskId ⟨needId, providerNodeId, providerTrust⟩ nowMs with
      | some store => some { v.turn needId .recorded with store }
      | none => some (v.turn needId .failed)
  | .fail needId message uuid nowMs =>
    match v.dispatches.find? fun d => d.needId = needId ∧ d.state = .sent with
    | none => none
    | some d => some { v.turn needId .failed with
        store := (v.store.reject H c d.taskId message uuid nowMs).getD v.store }
  | .poll compact events =>
    if v.batch compact = [] then some { v with batch := Function.update v.batch compact events }
    else none
  | .handle compact d =>
    match v.batch compact with
    | [] => none
    | event :: rest =>
      let (after, threw) := handle H c v.store compact event d
      let entry : Entry := ⟨compact, event, false, v.recorded, v.store, after⟩
      let lost := if threw then rest else []
      some { v with
        store := after
        batch := Function.update v.batch compact (if threw then [] else rest)
        log := lost.map (fun event => ⟨compact, event, true, v.recorded, after, after⟩) ++
          entry :: v.log }
  | .prune nowMs => some { v with store := (v.store.prune c nowMs).1 }
  | .cancel taskId message uuid nowMs =>
    some { v with store := v.store.cancel H c taskId message uuid nowMs }

inductive Serves (H : Host) (c : Config) : Server → Server → Prop
  | refl {v : Server} : Serves H c v v
  | step {v v' v'' : Server} {o : Action} : Serves H c v v' → serve H c v' o = some v'' →
      Serves H c v v''

/-! ### Events -/

def requestIdOf (compact : Bool) (event : Value) : Option Value :=
  if compact then TaskStore.compactRequestId event
  else (TaskStore.envelopeOf event).1.bind fun v => v.get "requestId"

def payloadOf (compact : Bool) (event : Value) : Option Value :=
  if compact then event.get "payload" else (TaskStore.envelopeOf event).1

def senderOf (compact : Bool) (event : Value) : Option Value :=
  if compact then event.get "from" else (TaskStore.envelopeOf event).2

def isKind (event : Value) (kind : String) : Bool :=
  strictEq (event.get "kind") (some (.string (js kind)))

/-- A verified RESULT or PARTIAL for the need. -/
structure ProviderEvent (compact : Bool) (event : Value) (needId : JsString) : Prop where
  verified : TaskStore.verified event
  kind : isKind event "PARTIAL" ∨ isKind event "RESULT"
  needId : requestIdOf compact event = some (.string needId)

/-- The event comes from the provider that the task has, if any. -/
def senderOk (compact : Bool) (event : Value) (task : Task) : Bool :=
  !(truthy (some task.providerNodeId) && (truthy (senderOf compact event) || !compact) &&
    !strictEq (senderOf compact event) (some task.providerNodeId))

/-- A failed RESULT whose error has no text. -/
def unreadable (H : Host) (payload : Option Value) : Bool :=
  let metadata := TaskStore.metadataOf (payload.bind fun v => v.get "metadata")
  truthy (metadata.get "failed") && (H.string (orValue (metadata.get "error")
    (.string (js "TRUYN provider execution failed")))).isNone

/-- The task may still change, and the event is one that its drain can apply. -/
structure Takes (H : Host) (compact : Bool) (event : Value) (task : Task) : Prop where
  live : ¬task.status.state.terminal
  sender : senderOk compact event task
  kind : compact ∨ isKind event "RESULT"
  readable : isKind event "RESULT" → ¬unreadable H (payloadOf compact event)

/-- The task has one more entry in its stream: its status changed, or an artifact was added. -/
def Applied (before after : TaskStore) (taskId : JsString) : Prop :=
  ∃ (task task' : Task) (update : StreamEvent), Maps.get before.tasks taskId = some task ∧
    Maps.get after.tasks taskId = some task' ∧ task'.streamEvents = task.streamEvents ++ [update]

variable {H : Host} {c : Config} {s s' : TaskStore} {t t' : Task} {taskId id needId : JsString}
  {compact : Bool} {event : Value} {d : Draws}

theorem partial_not_result (h : isKind event "PARTIAL") : ¬isKind event "RESULT" := by
  unfold isKind at *
  cases hkind : event.get "kind" with
  | none => simp [hkind, strictEq] at h
  | some v =>
    cases v with
    | string s =>
      have hs : s = js "PARTIAL" := by simpa [hkind, strictEq] using h
      simp only [strictEq, hs]
      decide
    | _ => simp [hkind, strictEq] at h

theorem settled_spec (r : ResultArgs) (d : Draws) :
    if truthy (r.metadata.get "failed") ∧ H.string (orValue (r.metadata.get "error")
        (.string (js "TRUYN provider execution failed"))) = none
    then (t.settled H r d).1.streamEvents = t.streamEvents
    else ∃ update, (t.settled H r d).1.streamEvents = t.streamEvents ++ [update] := by
  simp only [Task.settled]
  split
  · next h => simp [h.1, h.2]
  · next h =>
    split
    · next hfailed =>
      split
      · next hnone => exact absurd ⟨hfailed, hnone⟩ h
      · exact ⟨_, rfl⟩
    · split <;> exact ⟨_, rfl⟩

theorem partialised_pushes (event : Value) (requestId : JsString) (d : Draws) :
    ∃ update, (t.partialised H event requestId d).streamEvents = t.streamEvents ++ [update] := by
  simp only [Task.partialised]
  split
  · exact ⟨_, rfl⟩
  · exact ⟨_, rfl⟩
  · split
    · exact ⟨_, rfl⟩
    · split <;> exact ⟨_, rfl⟩

theorem handle_missing (hp : ProviderEvent compact event needId)
    (hnone : s.findByRequest (some (.string needId)) = none) :
    handle H c s compact event d = (s, false) := by
  cases compact with
  | true =>
    have hid : TaskStore.compactRequestId event = some (.string needId) := hp.needId
    simp [handle, TaskStore.recordCompactEvent, hp.verified, hid, hnone]
  | false =>
    have hid : (TaskStore.envelopeOf event).1.bind (fun v => v.get "requestId") =
        some (.string needId) := hp.needId
    simp [handle, TaskStore.completeFromTruynEvent, hp.verified, hid, hnone]

/-- What a drain does with an event for a task that it finds. -/
inductive Handled (H : Host) (c : Config) (s : TaskStore) (compact : Bool) (event : Value)
    (t : Task) (d : Draws) : TaskStore → Prop
  | refused (h : ¬Takes H compact event t) : Handled H c s compact event t d s
  | thrown {t' : Task} (h : ¬Takes H compact event t) (hturns : t.Turns d.nowMs t')
      (hsame : t'.streamEvents = t.streamEvents) :
      Handled H c s compact event t d (s.update c t' d.nowMs)
  | applied {t' : Task} {update : StreamEvent} (h : Takes H compact event t)
      (hturns : t.Turns d.nowMs t') (hpush : t'.streamEvents = t.streamEvents ++ [update]) :
      Handled H c s compact event t d (s.update c t' d.nowMs)

theorem handled_result {r : ResultArgs} (hsender : senderOk compact event t)
    (hkind : isKind event "RESULT")
    (hr : r.metadata =
      TaskStore.metadataOf ((payloadOf compact event).bind fun v => v.get "metadata")) :
    Handled H c s compact event t d (s.completeResult H c t r d).1 := by
  unfold TaskStore.completeResult
  split
  · next hterm => exact .refused fun h => h.live hterm
  · next hlive =>
    have hspec := settled_spec (H := H) (t := t) r d
    split at hspec
    · next hnone =>
      refine .thrown (fun h => h.readable hkind ?_) (settled_turns r d) hspec
      simp only [unreadable, ← hr, hnone.1, hnone.2]
      rfl
    · next hsome =>
      obtain ⟨update, hpush⟩ := hspec
      refine .applied ⟨hlive, hsender, .inr hkind, fun _ hun => hsome ?_⟩ (settled_turns r d) hpush
      simpa [unreadable, ← hr] using hun

theorem senderOk_compact : senderOk true event t = !(truthy (some t.providerNodeId) &&
    truthy (event.get "from") && !strictEq (event.get "from") (some t.providerNodeId)) := by
  simp [senderOk, senderOf]

theorem senderOk_envelope : senderOk false event t = !(truthy (some t.providerNodeId) &&
    !strictEq (TaskStore.envelopeOf event).2 (some t.providerNodeId)) := by
  simp [senderOk, senderOf]

theorem handle_found (hp : ProviderEvent compact event needId)
    (hfind : s.findByRequest (some (.string needId)) = some t) :
    Handled H c s compact event t d (handle H c s compact event d).1 := by
  cases compact with
  | true =>
    have hid : TaskStore.compactRequestId event = some (.string needId) := hp.needId
    simp only [handle, if_true, TaskStore.recordCompactEvent, hp.verified, hid, hfind]
    split
    · next h => exact absurd h (by simp)
    · split
      · next hsender =>
        refine .refused fun h => ?_
        have hok := h.sender
        rw [senderOk_compact, hsender] at hok
        cases hok
      · next hsender =>
        have hok : senderOk true event t := by
          rw [senderOk_compact, Bool.eq_false_iff.mpr hsender]
          rfl
        split
        · next hterm => exact .refused fun h => h.live hterm
        · next hlive =>
          split
          · next hpartial =>
            obtain ⟨update, hpush⟩ := partialised_pushes (H := H) (t := t) event needId d
            exact .applied ⟨hlive, hok, .inl rfl, fun hr => absurd hr (partial_not_result hpartial)⟩
              (partialised_turns event needId d) hpush
          · next hpartial =>
            have hresult := hp.kind.resolve_left hpartial
            split
            · exact handled_result hok hresult rfl
            · next hno => exact absurd hresult hno
  | false =>
    have hid : (TaskStore.envelopeOf event).1.bind (fun v => v.get "requestId") =
        some (.string needId) := hp.needId
    change Handled H c s false event t d (s.completeFromTruynEvent H c event d).1
    simp only [TaskStore.completeFromTruynEvent, hp.verified, hid, hfind]
    split
    · next hkind =>
      refine .refused fun h => ?_
      have hresult : strictEq (event.get "kind") (some (.string (js "RESULT"))) = true := by
        simpa [isKind] using h.kind
      rw [hresult] at hkind
      cases hkind
    · next hkind =>
      have hresult : isKind event "RESULT" := by simpa [isKind] using hkind
      split
      · next hsender =>
        refine .refused fun h => ?_
        have hok := h.sender
        rw [senderOk_envelope, hsender] at hok
        cases hok
      · next hsender =>
        have hok : senderOk false event t := by
          rw [senderOk_envelope, Bool.eq_false_iff.mpr hsender]
          rfl
        exact handled_result hok hresult rfl

/-- A task that turned is kept under its id. -/
theorem get_update {nowMs : ℤ} (hturns : t.Turns nowMs t') (hid : t.id = taskId) :
    Maps.get (s.update c t' nowMs).tasks id = if taskId = id then some t' else Maps.get s.tasks id := by
  rw [TaskStore.update, (tasks_touch _ _).1, get_put hturns hid]

theorem not_applied_of_same (h : ∀ task, Maps.get s.tasks taskId = some task →
    ∀ task', Maps.get s'.tasks taskId = some task' → task'.streamEvents = task.streamEvents) :
    ¬Applied s s' taskId := by
  rintro ⟨task, task', update, hget, hget', hpush⟩
  rw [h task hget task' hget'] at hpush
  simp at hpush

/-- An event is applied to the task that it is found by, where that task takes it. -/
theorem handle_applied (hk : s.Keyed) (hp : ProviderEvent compact event needId) :
    Applied s (handle H c s compact event d).1 taskId ↔
      Maps.get s.byTruynRequestId needId = some taskId ∧
        ∃ task, Maps.get s.tasks taskId = some task ∧ Takes H compact event task := by
  have hfind : s.findByRequest (some (.string needId)) =
      (Maps.get s.byTruynRequestId needId).bind fun i => Maps.get s.tasks i := rfl
  cases hnone : s.findByRequest (some (.string needId)) with
  | none =>
    rw [handle_missing hp hnone]
    refine iff_of_false (not_applied_of_same fun task hget task' hget' => ?_) ?_
    · rw [Option.some.inj (hget'.symm.trans hget)]
    · rintro ⟨hfound, task, hget, -⟩
      rw [hfind, hfound, Option.bind_some, hget] at hnone
      cases hnone
  | some t =>
    obtain ⟨r, i, heq, hfound, hget⟩ := find_spec hnone
    cases heq
    have hid := hk i t hget
    have hsame : ∀ {t' : Task}, t.Turns d.nowMs t' → t'.streamEvents = t.streamEvents →
        ¬Applied s (s.update c t' d.nowMs) taskId := by
      intro t' hturns hevents
      refine not_applied_of_same fun task htask task' htask' => ?_
      rw [get_update hturns hid] at htask'
      split at htask'
      · next heq =>
        subst heq
        cases htask'
        cases hget.symm.trans htask
        exact hevents
      · rw [Option.some.inj (htask'.symm.trans htask)]
    have hnot : ¬Takes H compact event t → ¬(Maps.get s.byTruynRequestId needId = some taskId ∧
        ∃ task, Maps.get s.tasks taskId = some task ∧ Takes H compact event task) := by
      rintro h ⟨hfound', task, htask, htakes⟩
      cases hfound.symm.trans hfound'
      cases hget.symm.trans htask
      exact h htakes
    have hhandled := handle_found (H := H) (c := c) (d := d) hp hnone
    generalize (handle H c s compact event d).1 = after at hhandled
    cases hhandled with
    | refused h =>
      refine iff_of_false (not_applied_of_same fun task htask task' htask' => ?_) (hnot h)
      rw [Option.some.inj (htask'.symm.trans htask)]
    | thrown h hturns hevents => exact iff_of_false (hsame hturns hevents) (hnot h)
    | @applied t' update h hturns hpush =>
      constructor
      · rintro ⟨task, task', update', htask, htask', hpush'⟩
        rw [get_update hturns hid] at htask'
        split at htask'
        · next heq =>
          subst heq
          exact ⟨hfound, t, hget, h⟩
        · rw [Option.some.inj (htask'.symm.trans htask)] at hpush'
          simp at hpush'
      · rintro ⟨hfound', -⟩
        cases hfound.symm.trans hfound'
        exact ⟨t, t', update, hget, by rw [get_update hturns hid, if_pos rfl], hpush⟩

/-! ### Requests and tasks -/

/-- A task has a request exactly where the request finds it. -/
structure Linked (s : TaskStore) : Prop where
  keyed : s.Keyed
  request : ∀ (id : JsString) (task : Task) (needId : JsString),
    Maps.get s.tasks id = some task →
    (task.truynRequestId = some needId ↔ Maps.get s.byTruynRequestId needId = some id)
  stored : ∀ (needId id : JsString), Maps.get s.byTruynRequestId needId = some id →
    ∃ task, Maps.get s.tasks id = some task

/-- No task is new or has another request. -/
structure Shrinks (s s' : TaskStore) : Prop where
  tasks : ∀ (id : JsString) (task' : Task), Maps.get s'.tasks id = some task' →
    ∃ task, Maps.get s.tasks id = some task ∧ task'.truynRequestId = task.truynRequestId
  found : ∀ (needId id : JsString), Maps.get s'.byTruynRequestId needId = some id →
    Maps.get s.byTruynRequestId needId = some id

theorem Shrinks.refl : Shrinks s s := ⟨fun _ task' h => ⟨task', h, rfl⟩, fun _ _ h => h⟩

theorem Shrinks.trans {s'' : TaskStore} (h : Shrinks s s') (h' : Shrinks s' s'') :
    Shrinks s s'' where
  tasks := by
    intro id task'' hget''
    obtain ⟨task', hget', hr'⟩ := h'.tasks id task'' hget''
    obtain ⟨task, hget, hr⟩ := h.tasks id task' hget'
    exact ⟨task, hget, hr'.trans hr⟩
  found := fun needId id hf => h.found needId id (h'.found needId id hf)

theorem found_delete (h : Linked s) {forget : Bool} :
    Maps.get (s.delete taskId forget).byTruynRequestId needId = some id ↔
      Maps.get s.byTruynRequestId needId = some id ∧ id ≠ taskId := by
  unfold TaskStore.delete
  split
  · next hnone =>
    refine ⟨fun hf => ⟨hf, ?_⟩, fun hf => hf.1⟩
    rintro rfl
    obtain ⟨task, hget⟩ := h.stored needId id hf
    rw [hnone] at hget
    cases hget
  · next task hget =>
    have hrequest := h.request taskId task needId hget
    cases hr : task.truynRequestId with
    | none =>
      refine ⟨fun hf => ⟨hf, ?_⟩, fun hf => hf.1⟩
      rintro rfl
      have hsome := hrequest.mpr hf
      rw [hr] at hsome
      cases hsome
    | some r =>
      dsimp only
      rw [Maps.get_delete]
      by_cases hne : r = needId
      · subst hne
        rw [if_pos rfl]
        refine iff_of_false (by simp) ?_
        rintro ⟨hf, hid⟩
        exact hid (Option.some.inj (hf.symm.trans (hrequest.mp hr)))
      · rw [if_neg hne]
        refine ⟨fun hf => ⟨hf, ?_⟩, fun hf => hf.1⟩
        rintro rfl
        exact hne (Option.some.inj (hr.symm.trans (hrequest.mpr hf)))

theorem linked_delete (h : Linked s) (taskId : JsString) (forget : Bool) :
    Linked (s.delete taskId forget) ∧ Shrinks s (s.delete taskId forget) := by
  have hsub : ∀ {id : JsString} {task : Task},
      Maps.get (s.delete taskId forget).tasks id = some task →
      id ≠ taskId ∧ Maps.get s.tasks id = some task := by
    intro id task hget
    rw [get_delete_tasks] at hget
    split at hget
    · cases hget
    · next hne => exact ⟨Ne.symm hne, hget⟩
  refine ⟨⟨?_, ?_, ?_⟩, ⟨?_, ?_⟩⟩
  · exact fun id task hget => h.keyed id task (hsub hget).2
  · intro id task needId hget
    obtain ⟨hne, hget⟩ := hsub hget
    rw [found_delete h, h.request id task needId hget]
    exact ⟨fun hf => ⟨hf, hne⟩, fun hf => hf.1⟩
  · intro needId id hf
    obtain ⟨hf, hne⟩ := (found_delete h).mp hf
    obtain ⟨task, hget⟩ := h.stored needId id hf
    exact ⟨task, by rw [get_delete_tasks, if_neg (Ne.symm hne)]; exact hget⟩
  · exact fun id task hget => ⟨task, (hsub hget).2, rfl⟩
  · exact fun needId id hf => ((found_delete h).mp hf).1

theorem linked_prune (h : Linked s) (nowMs : ℤ) :
    Linked (s.prune c nowMs).1 ∧ Shrinks s (s.prune c nowMs).1 := by
  refine prune_induct (fun s' => Linked s' ∧ Shrinks s s') ⟨?_, ?_⟩ fun s' id forget hs => ?_
  · exact ⟨h.keyed, h.request, h.stored⟩
  · exact ⟨fun _ task' ht => ⟨task', ht, rfl⟩, fun _ _ hf => hf⟩
  · obtain ⟨hl, hsh⟩ := linked_delete hs.1 id forget
    exact ⟨hl, hs.2.trans hsh⟩

theorem linked_mutates {guarded : Prop} {touched : JsString → Prop} {nowMs : ℤ} (h : Linked s)
    (hs : Mutates c guarded touched none nowMs s s') : Linked s' ∧ Shrinks s s' := by
  cases hs with
  | idle => exact ⟨h, .refl⟩
  | @update taskId t t' requests hget hturns hlive htouched hrequests =>
    obtain ⟨rfl, hrequest⟩ := hrequests.resolve_right nofun
    have hid := h.keyed taskId t hget
    have hsub : ∀ {id : JsString} {task' : Task},
        Maps.get ({ s with byTruynRequestId := s.byTruynRequestId }.update c t' nowMs).tasks id =
          some task' → ∃ task, Maps.get s.tasks id = some task ∧
            task'.truynRequestId = task.truynRequestId ∧ task'.id = task.id := by
      intro id task' hget'
      rw [get_update hturns hid] at hget'
      split at hget'
      · next heq =>
        cases hget'
        exact ⟨t, heq ▸ hget, hrequest, hturns.id⟩
      · exact ⟨task', hget', rfl, rfl⟩
    have hmap : ({ s with byTruynRequestId := s.byTruynRequestId }.update c t'
        nowMs).byTruynRequestId = s.byTruynRequestId := (tasks_touch _ _).2
    refine ⟨⟨?_, ?_, ?_⟩, ⟨?_, fun _ _ hf => hmap ▸ hf⟩⟩
    · intro id task' hget'
      obtain ⟨task, htask, -, hid'⟩ := hsub hget'
      exact hid'.trans (h.keyed id task htask)
    · intro id task' needId hget'
      obtain ⟨task, htask, hr, -⟩ := hsub hget'
      rw [hmap, hr]
      exact h.request id task needId htask
    · intro needId id hf
      obtain ⟨task, htask⟩ := h.stored needId id (hmap ▸ hf)
      rw [get_update hturns hid]
      by_cases heq : taskId = id
      · exact ⟨t', if_pos heq⟩
      · exact ⟨task, (if_neg heq).trans htask⟩
    · intro id task' hget'
      obtain ⟨task, htask, hr, -⟩ := hsub hget'
      exact ⟨task, htask, hr⟩

theorem linked_reject (h : Linked s) (taskId : JsString) (message : Value) (uuid : JsString)
    (nowMs : ℤ) :
    Linked ((s.reject H c taskId message uuid nowMs).getD s) ∧
      Shrinks s ((s.reject H c taskId message uuid nowMs).getD s) := by
  cases hr : s.reject H c taskId message uuid nowMs with
  | none => exact ⟨h, .refl⟩
  | some s' => exact linked_mutates h (mutates_reject hr)

theorem linked_handle (h : Linked s) (compact : Bool) (event : Value) (d : Draws) :
    Linked (handle H c s compact event d).1 ∧ Shrinks s (handle H c s compact event d).1 := by
  cases compact with
  | true => exact linked_mutates h (mutates_recordCompactEvent event d)
  | false => exact linked_mutates h (mutates_completeFromTruynEvent event d)

/-- `start` records a need that is new for a task that has none. -/
theorem linked_start {a : StartArgs} {nowMs : ℤ} (h : Linked s)
    (hs : s.start c taskId a nowMs = some s')
    (hfresh : Maps.get s.byTruynRequestId a.truynRequestId = none)
    (hnone : ∀ task, Maps.get s.tasks taskId = some task → task.truynRequestId = none) :
    Linked s' ∧ (∀ (id : JsString) (task' : Task), Maps.get s'.tasks id = some task' →
      ∃ task, Maps.get s.tasks id = some task ∧ task'.truynRequestId =
        if taskId = id then some a.truynRequestId else task.truynRequestId) ∧
    ∀ (needId id : JsString), Maps.get s'.byTruynRequestId needId = some id →
      (a.truynRequestId = needId ∧ taskId = id) ∨ Maps.get s.byTruynRequestId needId = some id := by
  unfold TaskStore.start at hs
  split at hs
  · cases hs
  · next t hget =>
    split at hs
    · cases hs
    · cases hs
      have hid := h.keyed taskId t hget
      have hturns : t.Turns nowMs (t.started a nowMs) := .same rfl rfl rfl rfl rfl rfl
      have hsub : ∀ {id : JsString} {task' : Task}, Maps.get ({ s with
          byTruynRequestId := Maps.set a.truynRequestId t.id s.byTruynRequestId }.update c
            (t.started a nowMs) nowMs).tasks id = some task' →
          (taskId = id ∧ task' = t.started a nowMs) ∨
            (taskId ≠ id ∧ Maps.get s.tasks id = some task') := by
        intro id task' hget'
        rw [get_update hturns hid] at hget'
        split at hget'
        · next heq => exact .inl ⟨heq, (Option.some.inj hget').symm⟩
        · next hne => exact .inr ⟨hne, hget'⟩
      have hmap : ∀ needId id, Maps.get ({ s with
          byTruynRequestId := Maps.set a.truynRequestId t.id s.byTruynRequestId }.update c
            (t.started a nowMs) nowMs).byTruynRequestId needId = some id ↔
          (a.truynRequestId = needId ∧ taskId = id) ∨
            Maps.get s.byTruynRequestId needId = some id := by
        intro needId id
        rw [TaskStore.update, (tasks_touch _ _).2, TaskStore.put, Maps.get_set, hid]
        by_cases hne : a.truynRequestId = needId
        · rw [if_pos hne, ← hne, hfresh]
          simp
        · rw [if_neg hne]
          simp [hne]
      refine ⟨⟨?_, ?_, ?_⟩, ?_, fun needId id hf => (hmap needId id).mp hf⟩
      · intro id task' hget'
        rcases hsub hget' with ⟨rfl, rfl⟩ | ⟨-, hget'⟩
        · exact hid
        · exact h.keyed id task' hget'
      · intro id task' needId hget'
        rw [hmap]
        rcases hsub hget' with ⟨rfl, rfl⟩ | ⟨hne, hget'⟩
        · have hold : Maps.get s.byTruynRequestId needId ≠ some taskId := by
            intro hf
            have hsome := (h.request taskId t needId hget).mpr hf
            rw [hnone t hget] at hsome
            cases hsome
          simp [Task.started, hold]
        · rw [h.request id task' needId hget']
          simp [hne]
      · intro needId id hf
        rw [get_update hturns hid]
        by_cases heq : taskId = id
        · exact ⟨_, if_pos heq⟩
        · rw [if_neg heq]
          exact h.stored needId id (((hmap needId id).mp hf).resolve_left fun hl => heq hl.2)
      · intro id task' hget'
        rcases hsub hget' with ⟨rfl, rfl⟩ | ⟨hne, hget'⟩
        · exact ⟨t, hget, (if_pos rfl).symm⟩
        · exact ⟨task', hget', (if_neg hne).symm⟩

/-- A new task has no request. -/
theorem linked_create {a : CreateArgs} (h : Linked s) (hnew : Maps.get s.tasks a.taskUuid = none) :
    Linked (s.create c a).1 ∧ (∀ (id : JsString) (task' : Task),
      Maps.get (s.create c a).1.tasks id = some task' →
        (id = a.taskUuid ∧ task' = a.task) ∨ ∃ task, Maps.get s.tasks id = some task ∧
          task'.truynRequestId = task.truynRequestId) ∧
    ∀ (needId id : JsString), Maps.get (s.create c a).1.byTruynRequestId needId = some id →
      Maps.get s.byTruynRequestId needId = some id := by
  obtain ⟨hl, hsh⟩ := linked_prune (c := c) h a.pruneMs
  have hgone : ∀ needId, Maps.get (s.prune c a.pruneMs).1.byTruynRequestId needId ≠
      some a.taskUuid := by
    intro needId hf
    obtain ⟨task, hget⟩ := h.stored needId _ (hsh.found needId _ hf)
    rw [hnew] at hget
    cases hget
  have hkeep : ∀ {id : JsString} {task : Task}, Maps.get (s.prune c a.pruneMs).1.tasks id =
      some task → ∃ task, Maps.get (s.create c a).1.tasks id = some task := by
    intro id task hget
    have hset : ∃ task, Maps.get (Maps.set a.task.id a.task (s.prune c a.pruneMs).1.tasks) id =
        some task := by
      rw [Maps.get_set]
      split
      · exact ⟨_, rfl⟩
      · exact ⟨task, hget⟩
    have hcases := create_cases (s := s) (c := c) a
    generalize s.create c a = r at hcases
    cases hcases with
    | refused => exact ⟨task, hget⟩
    | plain => exact hset
    | marked => exact hset
  refine ⟨⟨?_, ?_, ?_⟩, ?_, ?_⟩
  · intro id task' hget'
    rcases create_tasks hget' with ⟨rfl, rfl⟩ | hget
    · rfl
    · exact hl.keyed id task' hget
  · intro id task' needId hget'
    rw [create_found]
    rcases create_tasks hget' with ⟨rfl, rfl⟩ | hget
    · exact iff_of_false (fun hf => by cases hf) (hgone needId)
    · exact hl.request id task' needId hget
  · intro needId id hf
    rw [create_found] at hf
    obtain ⟨task, hget⟩ := hl.stored needId id hf
    exact hkeep hget
  · intro id task' hget'
    rcases create_tasks hget' with hself | hget
    · exact .inl hself
    · exact .inr (hsh.tasks id task' hget)
  · intro needId id hf
    rw [create_found] at hf
    exact hsh.found needId id hf

/-! ### The server -/

/-- What the log says of an event. -/
structure Logged (H : Host) (dispatches : List Dispatch) (e : Entry) : Prop where
  found : ∀ (needId id : JsString), Maps.get e.before.byTruynRequestId needId = some id →
    needId ∈ e.recorded
  known : ∀ needId ∈ e.recorded, needId ∈ dispatches.map Dispatch.needId
  linked : ∀ d ∈ dispatches, Maps.get e.before.byTruynRequestId d.needId = some d.taskId ↔
    d.needId ∈ e.recorded ∧ ∃ task, Maps.get e.before.tasks d.taskId = some task
  applied : ∀ needId, ProviderEvent e.compact e.event needId → ∀ taskId,
    Applied e.before e.after taskId ↔ e.dropped = false ∧
      Maps.get e.before.byTruynRequestId needId = some taskId ∧
      ∃ task, Maps.get e.before.tasks taskId = some task ∧ Takes H e.compact e.event task

/-- The request of a task that was dispatched is the need it was dispatched as, once recorded. -/
structure Good (H : Host) (v : Server) : Prop where
  linked : Linked v.store
  issued : ∀ (id : JsString) (task : Task), Maps.get v.store.tasks id = some task → id ∈ v.issued
  waiting : ∀ id ∈ v.waiting, id ∈ v.issued ∧ ∀ task, Maps.get v.store.tasks id = some task →
    task.truynRequestId = none
  dispatched : ∀ d ∈ v.dispatches, d.taskId ∈ v.issued ∧
    ∀ task, Maps.get v.store.tasks d.taskId = some task →
      task.truynRequestId = if d.state = .recorded then some d.needId else none
  origin : ∀ (needId id : JsString), Maps.get v.store.byTruynRequestId needId = some id →
    ∃ d ∈ v.dispatches, d.state = .recorded ∧ d.needId = needId ∧ d.taskId = id
  needs : (v.dispatches.map Dispatch.needId).Nodup
  tasks : (v.waiting ++ v.dispatches.map Dispatch.taskId).Nodup
  log : ∀ e ∈ v.log, Logged H v.dispatches e

variable {v v' : Server}

theorem Good.init : Good H .init where
  linked := {
    keyed := fun _ _ h => by cases h
    request := fun _ _ _ h => by cases h
    stored := fun _ _ h => by cases h }
  issued := fun _ _ h => by cases h
  waiting := fun _ h => by cases h
  dispatched := fun _ h => by cases h
  origin := fun _ _ h => by cases h
  needs := .nil
  tasks := .nil
  log := fun _ h => by cases h

theorem Good.unique (h : Good H v) {d d' : Dispatch} (hd : d ∈ v.dispatches)
    (hd' : d' ∈ v.dispatches) (heq : d.needId = d'.needId) : d = d' :=
  List.inj_on_of_nodup_map h.needs hd hd' heq

theorem mem_recorded {d : JsString} : d ∈ v.recorded ↔
    ∃ e ∈ v.dispatches, e.state = .recorded ∧ e.needId = d := by
  simp [Server.recorded, and_assoc]

/-- The need of a dispatch finds the task as long as it is recorded and the task is stored. -/
theorem Good.finds (h : Good H v) {d : Dispatch} (hd : d ∈ v.dispatches) :
    Maps.get v.store.byTruynRequestId d.needId = some d.taskId ↔
      d.needId ∈ v.recorded ∧ ∃ task, Maps.get v.store.tasks d.taskId = some task := by
  constructor
  · intro hf
    obtain ⟨e, he, hstate, hneed, -⟩ := h.origin _ _ hf
    exact ⟨mem_recorded.mpr ⟨e, he, hstate, hneed⟩, h.linked.stored _ _ hf⟩
  · rintro ⟨hrecorded, task, hget⟩
    obtain ⟨e, he, hstate, hneed⟩ := mem_recorded.mp hrecorded
    obtain rfl := h.unique he hd hneed
    refine (h.linked.request _ task _ hget).mp ?_
    rw [(h.dispatched e hd).2 task hget, if_pos hstate]

/-- A step that only shrinks the store. -/
theorem Good.shrinks (h : Good H v) (hl : Linked s') (hs : Shrinks v.store s') :
    Good H { v with store := s' } where
  __ := h
  linked := hl
  issued := by
    intro id task' hget'
    obtain ⟨task, hget, -⟩ := hs.tasks id task' hget'
    exact h.issued id task hget
  waiting := by
    refine fun id hid => ⟨(h.waiting id hid).1, fun task' hget' => ?_⟩
    obtain ⟨task, hget, hr⟩ := hs.tasks id task' hget'
    exact hr.trans ((h.waiting id hid).2 task hget)
  dispatched := by
    refine fun d hd => ⟨(h.dispatched d hd).1, fun task' hget' => ?_⟩
    obtain ⟨task, hget, hr⟩ := hs.tasks _ task' hget'
    exact hr.trans ((h.dispatched d hd).2 task hget)
  origin := fun needId id hf => h.origin needId id (hs.found needId id hf)

/-- A request no longer waits. -/
theorem Good.leaves (h : Good H v) (taskId : JsString) :
    Good H { v with waiting := v.waiting.erase taskId } :=
  { h with
    waiting := fun id hid => h.waiting id (List.mem_of_mem_erase hid)
    tasks := h.tasks.sublist (List.Sublist.append_right List.erase_sublist _) }

theorem Good.creates (h : Good H v) {a : CreateArgs} (hnew : a.taskUuid ∉ v.issued) :
    Good H { v with
      store := (v.store.create c a).1
      issued := a.taskUuid :: v.issued
      waiting := a.taskUuid :: v.waiting } ∧
    Good H { v with
      store := (v.store.create c a).1
      issued := a.taskUuid :: v.issued } := by
  have hgone : Maps.get v.store.tasks a.taskUuid = none := by
    cases hget : Maps.get v.store.tasks a.taskUuid with
    | none => rfl
    | some task => exact absurd (h.issued _ task hget) hnew
  obtain ⟨hl, htasks, hfound⟩ := linked_create (c := c) h.linked hgone
  -- the request of a task that was issued before is what it was
  have hold : ∀ {id : JsString} {task' : Task}, id ∈ v.issued →
      Maps.get (v.store.create c a).1.tasks id = some task' →
      ∃ task, Maps.get v.store.tasks id = some task ∧
        task'.truynRequestId = task.truynRequestId := by
    intro id task' hid hget'
    rcases htasks id task' hget' with ⟨rfl, -⟩ | hold
    · exact absurd hid hnew
    · exact hold
  have hissued : ∀ (id : JsString) (task : Task),
      Maps.get (v.store.create c a).1.tasks id = some task → id ∈ a.taskUuid :: v.issued := by
    intro id task hget
    rcases htasks id task hget with ⟨rfl, -⟩ | ⟨task', hget', -⟩
    · exact List.mem_cons_self
    · exact List.mem_cons_of_mem _ (h.issued id task' hget')
  have hwaiting : ∀ id ∈ v.waiting, id ∈ a.taskUuid :: v.issued ∧ ∀ task,
      Maps.get (v.store.create c a).1.tasks id = some task → task.truynRequestId = none := by
    intro id hid
    obtain ⟨hin, hnone⟩ := h.waiting id hid
    refine ⟨List.mem_cons_of_mem _ hin, fun task' hget' => ?_⟩
    obtain ⟨task, hget, hr⟩ := hold hin hget'
    exact hr.trans (hnone task hget)
  have hdispatched : ∀ d ∈ v.dispatches, d.taskId ∈ a.taskUuid :: v.issued ∧ ∀ task,
      Maps.get (v.store.create c a).1.tasks d.taskId = some task →
        task.truynRequestId = if d.state = .recorded then some d.needId else none := by
    intro d hd
    obtain ⟨hin, hrequest⟩ := h.dispatched d hd
    refine ⟨List.mem_cons_of_mem _ hin, fun task' hget' => ?_⟩
    obtain ⟨task, hget, hr⟩ := hold hin hget'
    exact hr.trans (hrequest task hget)
  have horigin := fun needId id hf => h.origin needId id (hfound needId id hf)
  constructor
  · refine ⟨hl, hissued, fun id hid => ?_, hdispatched, horigin, h.needs, ?_, h.log⟩
    · rcases List.mem_cons.mp hid with rfl | hid
      · refine ⟨List.mem_cons_self, fun task hget => ?_⟩
        rcases htasks _ task hget with ⟨-, rfl⟩ | ⟨task', hget', -⟩
        · rfl
        · exact absurd (h.issued _ task' hget') hnew
      · exact hwaiting id hid
    · rw [List.cons_append, List.nodup_cons]
      refine ⟨fun hmem => ?_, h.tasks⟩
      rcases List.mem_append.mp hmem with hmem | hmem
      · exact hnew (h.waiting _ hmem).1
      · obtain ⟨d, hd, hid⟩ := List.mem_map.mp hmem
        exact hnew (hid ▸ (h.dispatched d hd).1)
  · exact ⟨hl, hissued, hwaiting, hdispatched, horigin, h.needs, h.tasks, h.log⟩

/-- A need is sent: no event that was logged before is for it. -/
theorem Good.sends (h : Good H v) (hwaits : taskId ∈ v.waiting)
    (hnew : needId ∉ v.dispatches.map Dispatch.needId) :
    Good H { v with
      waiting := v.waiting.erase taskId
      dispatches := ⟨needId, taskId, .sent⟩ :: v.dispatches } where
  __ := h
  waiting := fun id hid => h.waiting id (List.mem_of_mem_erase hid)
  dispatched := by
    intro d hd
    rcases List.mem_cons.mp hd with rfl | hd
    · exact h.waiting taskId hwaits
    · exact h.dispatched d hd
  origin := by
    intro n id hf
    obtain ⟨d, hd, hspec⟩ := h.origin n id hf
    exact ⟨d, List.mem_cons_of_mem _ hd, hspec⟩
  needs := List.nodup_cons.mpr ⟨hnew, h.needs⟩
  tasks := by
    have hperm : (v.waiting.erase taskId ++ taskId :: v.dispatches.map Dispatch.taskId).Perm
        (v.waiting ++ v.dispatches.map Dispatch.taskId) :=
      List.perm_middle.trans ((List.perm_cons_erase hwaits).symm.append_right _)
    exact hperm.nodup_iff.mpr h.tasks
  log := by
    intro e he
    have hlog := h.log e he
    have hunknown : needId ∉ e.recorded := fun hmem => hnew (hlog.known needId hmem)
    refine ⟨hlog.found, fun n hn => List.mem_cons_of_mem _ (hlog.known n hn), fun d hd => ?_,
      hlog.applied⟩
    rcases List.mem_cons.mp hd with rfl | hd
    · exact iff_of_false (fun hf => hunknown (hlog.found _ _ hf)) fun hr => hunknown hr.1
    · exact hlog.linked d hd

theorem mem_turn {state : DispatchState} {e : Dispatch} :
    e ∈ (v.turn needId state).dispatches ↔
      ∃ d ∈ v.dispatches, (if d.needId = needId then { d with state } else d) = e := by
  simp [Server.turn]

/-- Turning a dispatch keeps its need and its task. -/
theorem turn_maps (v : Server) (needId : JsString) (state : DispatchState) :
    (v.turn needId state).dispatches.map Dispatch.needId = v.dispatches.map Dispatch.needId ∧
      (v.turn needId state).dispatches.map Dispatch.taskId = v.dispatches.map Dispatch.taskId := by
  constructor <;> simp only [Server.turn, List.map_map] <;> refine List.map_congr_left fun d _ => ?_
  all_goals
    dsimp only [Function.comp]
    split <;> rfl

theorem Logged.turn {e : Entry} (h : Logged H v.dispatches e) (state : DispatchState) :
    Logged H (v.turn needId state).dispatches e := by
  refine ⟨h.found, fun n hn => ?_, fun d' hd' => ?_, h.applied⟩
  · rw [(turn_maps v needId state).1]
    exact h.known n hn
  obtain ⟨d, hd, rfl⟩ := mem_turn.mp hd'
  have hlinked := h.linked d hd
  split <;> exact hlinked

/-- The answer to a NEED is lost. -/
theorem Good.fails (h : Good H v) {d : Dispatch} (hd : d ∈ v.dispatches) (hsent : d.state = .sent) :
    Good H (v.turn d.needId .failed) where
  __ := h
  dispatched := by
    intro e' he'
    obtain ⟨e, he, rfl⟩ := mem_turn.mp he'
    have hspec := h.dispatched e he
    split
    · next heq =>
      obtain rfl := h.unique he hd heq
      refine ⟨hspec.1, fun task hget => ?_⟩
      simpa [hsent] using hspec.2 task hget
    · exact hspec
  origin := by
    intro n id hf
    obtain ⟨e, he, hstate, hneed, htask⟩ := h.origin n id hf
    refine ⟨e, mem_turn.mpr ⟨e, he, if_neg fun heq => ?_⟩, hstate, hneed, htask⟩
    obtain rfl := h.unique he hd heq
    rw [hsent] at hstate
    cases hstate
  needs := by
    rw [(turn_maps v _ _).1]
    exact h.needs
  tasks := by
    rw [(turn_maps v _ _).2]
    exact h.tasks
  log := fun e he => (h.log e he).turn _

/-- The need of a task is recorded. -/
theorem Good.records (h : Good H v) {d : Dispatch} (hd : d ∈ v.dispatches) (hsent : d.state = .sent)
    {provider trust : Value} {nowMs : ℤ}
    (hs : v.store.start c d.taskId ⟨d.needId, provider, trust⟩ nowMs = some s') :
    Good H { v.turn d.needId .recorded with store := s' } := by
  have hfresh : Maps.get v.store.byTruynRequestId d.needId = none := by
    cases hf : Maps.get v.store.byTruynRequestId d.needId with
    | none => rfl
    | some id =>
      obtain ⟨e, he, hstate, hneed, -⟩ := h.origin _ _ hf
      obtain rfl := h.unique he hd hneed
      rw [hsent] at hstate
      cases hstate
  have hnone : ∀ task, Maps.get v.store.tasks d.taskId = some task → task.truynRequestId = none := by
    intro task hget
    have hrequest := (h.dispatched d hd).2 task hget
    simpa [hsent] using hrequest
  obtain ⟨hl, htasks, hfound⟩ := linked_start h.linked hs hfresh hnone
  -- no other dispatch, and no waiting request, has this task
  have hother : ∀ e ∈ v.dispatches, e.taskId = d.taskId → e = d := fun e he heq =>
    List.inj_on_of_nodup_map (List.nodup_append.mp h.tasks).2.1 he hd heq
  have hwaits : d.taskId ∉ v.waiting := fun hmem =>
    (List.nodup_append.mp h.tasks).2.2 _ hmem _ (List.mem_map_of_mem hd) rfl
  refine ⟨hl, ?_, ?_, ?_, ?_, ?_, ?_, fun e he => (h.log e he).turn _⟩
  · intro id task' hget'
    obtain ⟨task, hget, -⟩ := htasks id task' hget'
    exact h.issued id task hget
  · refine fun id hid => ⟨(h.waiting id hid).1, fun task' hget' => ?_⟩
    obtain ⟨task, hget, hr⟩ := htasks id task' hget'
    rw [hr, if_neg fun (heq : d.taskId = id) => hwaits (heq ▸ hid)]
    exact (h.waiting id hid).2 task hget
  · intro e' he'
    obtain ⟨e, he, rfl⟩ := mem_turn.mp he'
    split
    · next heq =>
      obtain rfl := h.unique he hd heq
      refine ⟨(h.dispatched e he).1, fun task' hget' => ?_⟩
      obtain ⟨task, -, hr⟩ := htasks _ task' hget'
      rw [hr, if_pos rfl]
      rfl
    · next hne =>
      refine ⟨(h.dispatched e he).1, fun task' hget' => ?_⟩
      obtain ⟨task, hget, hr⟩ := htasks _ task' hget'
      rw [hr, if_neg fun heq => hne (congrArg Dispatch.needId (hother e he heq.symm))]
      exact (h.dispatched e he).2 task hget
  · intro n id hf
    rcases hfound n id hf with ⟨rfl, rfl⟩ | hf
    · exact ⟨{ d with state := .recorded }, mem_turn.mpr ⟨d, hd, if_pos rfl⟩, rfl, rfl, rfl⟩
    · obtain ⟨e, he, hstate, hneed, htask⟩ := h.origin n id hf
      refine ⟨e, mem_turn.mpr ⟨e, he, if_neg fun heq => ?_⟩, hstate, hneed, htask⟩
      obtain rfl := h.unique he hd heq
      rw [hsent] at hstate
      cases hstate
  · exact ((turn_maps v d.needId .recorded).1).symm ▸ h.needs
  · exact ((turn_maps v d.needId .recorded).2).symm ▸ h.tasks

/-- An event is handled, and the events after it may be dropped. -/
theorem Good.handles (h : Good H v) (compact : Bool) (event : Value) (lost : List Value) (d : Draws)
    (batch : Bool → List Value) :
    Good H { v with
      store := (handle H c v.store compact event d).1
      batch
      log := lost.map (fun other => ⟨compact, other, true, v.recorded,
          (handle H c v.store compact event d).1, (handle H c v.store compact event d).1⟩) ++
        ⟨compact, event, false, v.recorded, v.store, (handle H c v.store compact event d).1⟩ ::
          v.log } := by
  obtain ⟨hl, hs⟩ := linked_handle (H := H) (c := c) h.linked compact event d
  have hg := h.shrinks hl hs
  have hknown : ∀ n ∈ v.recorded, n ∈ v.dispatches.map Dispatch.needId := by
    intro n hn
    obtain ⟨e, he, -, hneed⟩ := mem_recorded.mp hn
    exact hneed ▸ List.mem_map_of_mem he
  have horigin : ∀ n id, Maps.get v.store.byTruynRequestId n = some id → n ∈ v.recorded := by
    intro n id hf
    obtain ⟨e, he, hstate, hneed, -⟩ := h.origin n id hf
    exact mem_recorded.mpr ⟨e, he, hstate, hneed⟩
  refine { hg with log := fun e he => ?_ }
  rcases List.mem_append.mp he with he | he
  · obtain ⟨event', -, rfl⟩ := List.mem_map.mp he
    refine ⟨fun n id hf => horigin n id (hs.found n id hf), hknown, fun d hd => hg.finds hd,
      fun n _ taskId => iff_of_false (not_applied_of_same fun task hget task' hget' => ?_) nofun⟩
    rw [Option.some.inj (hget'.symm.trans hget)]
  · rcases List.mem_cons.mp he with rfl | he
    · refine ⟨horigin, hknown, fun d hd => h.finds hd, fun n hp taskId => ?_⟩
      rw [handle_applied h.linked.keyed hp]
      simp
    · exact h.log e he

theorem find_sent {d : Dispatch} (h : v.dispatches.find?
    (fun d => d.needId = needId ∧ d.state = .sent) = some d) :
    d ∈ v.dispatches ∧ d.needId = needId ∧ d.state = .sent := by
  have hspec := List.find?_some h
  simp only [decide_eq_true_eq] at hspec
  exact ⟨List.mem_of_find?_eq_some h, hspec⟩

/-- STEP: the invariant is kept. -/
theorem good_step {o : Action} (h : Good H v) (hs : serve H c v o = some v') : Good H v' := by
  cases o with
  | create a =>
    simp only [serve] at hs
    split at hs
    · cases hs
    · next hnew =>
      obtain ⟨hok, herror⟩ := h.creates (c := c) hnew
      split at hs
      · next store task hcreate =>
        cases hs
        have htask : task.id = a.taskUuid := by
          have hcases := create_cases (s := v.store) (c := c) a
          rw [hcreate] at hcases
          cases hcases <;> rfl
        rw [hcreate] at hok
        rw [htask]
        exact hok
      · next store error hcreate =>
        cases hs
        have hidle : Linked (v.store.create c a).1 ∧ Shrinks v.store (v.store.create c a).1 := by
          have hcases := create_cases (s := v.store) (c := c) a
          rw [hcreate] at hcases ⊢
          cases hcases
          exact linked_prune h.linked _
        rw [hcreate] at hidle
        exact h.shrinks hidle.1 hidle.2
  | abandon taskId =>
    simp only [serve] at hs
    split at hs
    · cases hs
      obtain ⟨hl, hsh⟩ := linked_delete h.linked taskId true
      exact (h.shrinks hl hsh).leaves taskId
    · cases hs
  | send taskId needId =>
    simp only [serve] at hs
    split at hs
    · next hguard =>
      cases hs
      exact h.sends hguard.1 hguard.2.1
    · cases hs
  | refuse taskId message uuid nowMs =>
    simp only [serve] at hs
    split at hs
    · cases hs
      obtain ⟨hl, hsh⟩ := linked_reject (H := H) (c := c) h.linked taskId message uuid nowMs
      exact (h.shrinks hl hsh).leaves taskId
    · cases hs
  | record needId provider trust nowMs =>
    simp only [serve] at hs
    split at hs
    · cases hs
    · next d hfind =>
      obtain ⟨hd, rfl, hsent⟩ := find_sent hfind
      split at hs
      · next store hstart =>
        cases hs
        exact h.records hd hsent hstart
      · cases hs
        exact h.fails hd hsent
  | fail needId message uuid nowMs =>
    simp only [serve] at hs
    split at hs
    · cases hs
    · next d hfind =>
      obtain ⟨hd, rfl, hsent⟩ := find_sent hfind
      cases hs
      obtain ⟨hl, hsh⟩ := linked_reject (H := H) (c := c) h.linked d.taskId message uuid nowMs
      exact (h.fails hd hsent).shrinks hl hsh
  | poll compact events =>
    simp only [serve] at hs
    split at hs
    · cases hs
      exact { h with }
    · cases hs
  | handle compact d =>
    simp only [serve] at hs
    split at hs
    · cases hs
    · next event rest hbatch =>
      cases hs
      exact h.handles compact event _ d _
  | prune nowMs =>
    cases hs
    obtain ⟨hl, hsh⟩ := linked_prune (c := c) h.linked nowMs
    exact h.shrinks hl hsh
  | cancel taskId message uuid nowMs =>
    cases hs
    obtain ⟨hl, hsh⟩ := linked_mutates h.linked
      (mutates_cancel (H := H) (c := c) taskId message uuid nowMs)
    exact h.shrinks hl hsh

/-- RUN: the invariant holds. -/
theorem good_run (hr : Serves H c v v') (h : Good H v) : Good H v' := by
  induction hr with
  | refl => exact h
  | step _ hs ih => exact good_step ih hs

/-- A RESULT for the need `[8]`. -/
def sampleResult : Value :=
  .object [(js "verification", .object [(js "ok", .bool true)]), (js "kind", .string (js "RESULT")),
    (js "requestId", .string [8]), (js "payload", .object [(js "output", .string (js "done"))])]

theorem sampleResult_provider : ProviderEvent true sampleResult [8] :=
  ⟨by rfl, .inr (by rfl), rfl⟩

def sampleDraws : Draws := ⟨1, [5], [6]⟩

end Truyn.A2a
