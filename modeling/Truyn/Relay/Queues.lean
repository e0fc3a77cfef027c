import Truyn.Relay.Room

/-! relay:queues | an event that is queued stays queued until it is taken

    Cancellations and PARTIALs are acknowledged once they are handed over, and are only queued when
    there is room. NEEDs, stages of chains and legacy events are queued without a look: on a full
    queue they push the oldest event out. `Files` says that queues have only grown at their ends and
    that what was reported as queued is there; every segment files, but polls, evictions, and
    unchecked writes to a full queue (`Spared`). -/

namespace Truyn.Relay
open Async Cas
open Ledger (NeedStatus Time Record Awaited Book)

variable {o : Options} {e : Env o} {i : Input} {t : Option Task} {w w' : World} {s : Step} {n : Id}

/-- The legacy events queued for a node, or its fast events. -/
def World.backlog (w : World) (legacy : Bool) (n : Id) : List Event :=
  if legacy then w.events n else w.fastEvents n

/-- Events that the relay acknowledges. -/
def Event.kept : Event → Bool
  | .REVOKE _ | .PARTIAL _ _ => true
  | _ => false

/-- The queues of `n` have only grown at their ends, and hold what was reported as queued. -/
structure Files (n : Id) (w w' : World) : Prop where
  ahead : ∀ b, w.backlog b n <+: w'.backlog b n
  filed : ∃ l, w'.log = l ++ w.log ∧ ∀ ev : Event, Output.sent n ev .queued ∈ l → ev.kept →
    ∃ b, ev ∈ w'.backlog b n

theorem Files.trans {u v w : World} (h : Files n u v) (h' : Files n v w) : Files n u w where
  ahead b := (h.ahead b).trans (h'.ahead b)
  filed := by
    obtain ⟨l, hl, hf⟩ := h.filed
    obtain ⟨l', hl', hf'⟩ := h'.filed
    refine ⟨l' ++ l, by rw [hl', hl, List.append_assoc], fun ev hev hk => ?_⟩
    rcases List.mem_append.mp hev with hev | hev
    · exact hf' ev hev hk
    · obtain ⟨b, hb⟩ := hf ev hev hk
      exact ⟨b, (h'.ahead b).subset hb⟩

/-! ### Writes -/

/-- Queues and log are the same. -/
structure Still (w w' : World) : Prop where
  events : w'.events = w.events
  fast : w'.fastEvents = w.fastEvents
  log : w'.log = w.log

theorem Still.trans {u v w : World} (h : Still u v) (h' : Still v w) : Still u w :=
  ⟨h'.events.trans h.events, h'.fast.trans h.fast, h'.log.trans h.log⟩

theorem Still.backlog (h : Still w w') (b : Bool) (n : Id) : w'.backlog b n = w.backlog b n := by
  rw [World.backlog, World.backlog, h.events, h.fast]

theorem Still.files (h : Still w w') : Files n w w' where
  ahead b := by rw [h.backlog]
  filed := ⟨[], h.log, fun _ h _ => absurd h List.not_mem_nil⟩

theorem Files.refl (w : World) : Files n w w := Still.files ⟨rfl, rfl, rfl⟩

/-- Leaving something that is not an acknowledged event in a queue. -/
theorem files_emit (w : World) {out : Output}
    (h : ∀ ev : Event, out = .sent n ev .queued → ev.kept = false) : Files n w (w.emit out) where
  ahead b := List.prefix_rfl
  filed := ⟨[out], rfl, fun ev hev hk => by
    rw [h ev (List.mem_singleton.mp hev).symm] at hk
    cases hk⟩

theorem still_mark (w : World) (r : Ref) (status : NeedStatus) :
    Still w (w.markRequestStatus r status) := by
  unfold World.markRequestStatus
  split
  · exact ⟨rfl, rfl, rfl⟩
  · split <;> exact ⟨rfl, rfl, rfl⟩

theorem still_release (w : World) (r : Ref) : Still w (w.releaseFastTerminal r) := by
  unfold World.releaseFastTerminal
  split
  · exact ⟨rfl, rfl, rfl⟩
  · split <;> exact ⟨rfl, rfl, rfl⟩

theorem still_finish (w : World) (id : Id) : Still w (w.finishResultWaiter id).1 :=
  ⟨(plain_finish w id).events, (plain_finish w id).fast, (plain_finish w id).log⟩

/-- Ending a request moves no event. -/
theorem still_end (w : World) (r : Ref) (status : NeedStatus) (f : Request → Request) (id : Id) :
    Still w ((((w.markRequestStatus r status).modify r f).releaseFastTerminal
      r).finishResultWaiter id).1 := by
  have h := still_mark w r status
  have h₁ : Still w ((w.markRequestStatus r status).modify r f) := ⟨h.events, h.fast, h.log⟩
  exact h₁.trans ((still_release _ r).trans (still_finish _ id))

/-- A queue with room is only extended. -/
theorem boundedQueue_room {queue : List Event} (h : queue.length < o.maxQueuedEventsPerNode)
    (ev : Event) : World.boundedQueue o queue ev = queue ++ [ev] := by
  rw [World.boundedQueue, Nat.sub_eq_zero_of_le h, List.drop_zero]

/-- An event at the end of a queue of `m`. -/
theorem files_append {m : Id} {ev : Event} (b : Bool)
    (hb : w'.backlog b m = w.backlog b m ++ [ev]) (ho : ∀ b', b' ≠ b → w'.backlog b' m = w.backlog b' m)
    (hm : m ≠ n → ∀ b', w'.backlog b' n = w.backlog b' n) {tr : Transport}
    (hl : w'.log = .sent m ev tr :: w.log) : Files n w w' where
  ahead b' := by
    by_cases h : m = n
    · subst h
      by_cases hbb : b' = b
      · rw [hbb, hb]
        exact List.prefix_append _ _
      · rw [ho b' hbb]
    · rw [hm h b']
  filed := by
    refine ⟨[.sent m ev tr], hl, fun ev' hev _ => ?_⟩
    cases List.mem_singleton.mp hev
    exact ⟨b, by rw [hb]; exact List.mem_append_right _ (List.mem_singleton_self _)⟩

theorem backlog_setFast (w : World) (m : Id) (l : List Event) (b : Bool) (n : Id) :
    (w.setFastEvents m l).backlog b n = if b = false ∧ n = m then l else w.backlog b n := by
  cases b with
  | true => rfl
  | false => simp only [World.backlog, World.setFastEvents, Function.update_apply, true_and]; rfl

theorem backlog_setLegacy (w : World) (m : Id) (l : List Event) (b : Bool) (n : Id) :
    (w.setEvents m l).backlog b n = if b = true ∧ n = m then l else w.backlog b n := by
  cases b with
  | false => rfl
  | true => simp only [World.backlog, World.setEvents, Function.update_apply, true_and]; rfl

/-- `queueFast` files, if a full queue is looked at or there is room. -/
theorem files_queueFast (o : Options) (e : Env o) (w : World) (m : Id) (ev : Event) (b : Bool)
    (h : b = false → m = n → e.link m = .absent → w.fastWaiters m = false →
      (w.fastEvents m).length < o.maxQueuedEventsPerNode) :
    Files n w (w.queueFast o e m ev b).1 := by
  unfold World.queueFast
  split
  · exact files_emit w (by simp)
  next h₁ =>
  split
  · exact .refl w
  next h₂ =>
  split
  · exact Files.trans (v := w.setFastWaiter m false) (Still.files ⟨rfl, rfl, rfl⟩)
      (files_emit _ (by simp))
  next h₃ =>
  split
  · exact .refl w
  next h₄ =>
  have habsent : e.link m = .absent := by
    cases hl : e.link m with
    | absent => rfl
    | saturated => exact absurd hl h₂
    | writable => exact absurd (.inl hl) h₁
  by_cases hm : m = n
  · have hroom : (w.fastEvents m).length < o.maxQueuedEventsPerNode := by
      cases b with
      | false => exact h rfl hm habsent (by simpa using h₃)
      | true => simpa using h₄
    refine files_append (m := m) false ?_ ?_ (fun h => absurd hm h) rfl
    · exact (backlog_setFast w m _ false m).trans (by
        rw [if_pos ⟨rfl, rfl⟩, boundedQueue_room hroom]; rfl)
    · intro b' hb'
      exact (backlog_setFast w m _ b' m).trans (if_neg fun h => hb' h.1)
  · have hback : ∀ b', ((w.setFastEvents m (World.boundedQueue o (w.fastEvents m) ev)).emit
        (.sent m ev .queued)).backlog b' n = w.backlog b' n := fun b' =>
      (backlog_setFast w m _ b' n).trans (if_neg fun h => hm h.2.symm)
    refine ⟨fun b' => by rw [hback b'], [_], rfl, fun ev' hev _ => ?_⟩
    cases List.mem_singleton.mp hev
    exact absurd rfl hm

/-- `queue` files, if there is room. -/
theorem files_queue (o : Options) (e : Env o) (w : World) (m : Id) (ev : Event)
    (h : m = n → e.link m ≠ .writable → w.legacyWaiters m = false →
      (w.events m).length < o.maxQueuedEventsPerNode) : Files n w (w.queue o e m ev) := by
  unfold World.queue
  split
  · exact files_emit w (by simp)
  next h₁ =>
  split
  · exact Files.trans (v := w.setLegacyWaiter m false) (Still.files ⟨rfl, rfl, rfl⟩)
      (files_emit _ (by simp))
  next h₂ =>
  by_cases hm : m = n
  · have hroom := h hm h₁ (by simpa using h₂)
    refine files_append (m := m) true ?_ ?_ (fun h => absurd hm h) rfl
    · exact (backlog_setLegacy w m _ true m).trans (by
        rw [if_pos ⟨rfl, rfl⟩, boundedQueue_room hroom]; rfl)
    · intro b' hb'
      exact (backlog_setLegacy w m _ b' m).trans (if_neg fun h => hb' h.1)
  · refine ⟨fun b' => ?_, [_], rfl, fun ev' hev _ => ?_⟩
    · have : ((w.setEvents m (World.boundedQueue o (w.events m) ev)).emit (.sent m ev
          (if e.link m = .saturated then .queuedAfterBackpressure else .queued))).backlog b' n =
            w.backlog b' n :=
        (backlog_setLegacy w m _ b' n).trans (if_neg fun h => hm h.2.symm)
      rw [this]
    · have := List.mem_singleton.mp hev
      simp only [Output.sent.injEq] at this
      exact absurd this.1.symm hm

theorem files_queueCritical (o : Options) (e : Env o) (w : World) (m : Id) (ev : Event) :
    Files n w (w.queueCritical o e m ev).1 := by
  unfold World.queueCritical
  split
  · exact files_emit w (by simp)
  split
  · exact .refl w
  split
  · exact Files.trans (v := w.setLegacyWaiter m false) (Still.files ⟨rfl, rfl, rfl⟩)
      (files_emit _ (by simp))
  split
  · exact .refl w
  · refine files_append (m := m) true ?_ ?_ ?_ rfl
    · exact (backlog_setLegacy w m _ true m).trans (if_pos ⟨rfl, rfl⟩)
    · intro b' hb'
      exact (backlog_setLegacy w m _ b' m).trans (if_neg fun h => hb' h.1)
    · intro hm b'
      exact (backlog_setLegacy w m _ b' n).trans (if_neg fun h => hm h.2.symm)

theorem files_queueCancellation (o : Options) (e : Env o) (w : World) (q : Request) (ev : Event) :
    Files n w (w.queueCancellation o e q ev).1 := by
  unfold World.queueCancellation
  split
  · exact files_queueFast o e w q.provider ev true (by simp)
  · exact files_queueCritical o e w q.provider ev

instance : Minor (Files n) where
  refl := .refl
  trans := .trans
  plain h := Still.files ⟨h.events, h.fast, h.log⟩
  answered w _ _ _ _ := files_emit w (by simp)
  expired w r now := by
    unfold failExpired
    split
    · exact .refl w
    · exact (still_end w r _ _ _).files
  cancelled w r now id := (still_end w r _ _ id).files
  revoked o e w q id := files_queueCancellation o e w q (.REVOKE id)
  streamed o e w q r frame := files_queueFast o e w q.requester (.PARTIAL r frame) true (by simp)
  advanced _ _ _ _ _ _ := Still.files ⟨rfl, rfl, rfl⟩

/-! ### Segments -/

/-- The queue that a segment writes to without a look, if nothing takes its event at once. -/
def unchecked (e : Env o) (w : World) : Option Task → Option (Bool × Id)
  | some (.resume a (.fastNeedAdmitted _ frame _ provider)) =>
    if a.failed ∨ w.hasRequest frame.i ∨ e.link provider ≠ .absent ∨ w.fastWaiters provider then none
    else some (false, provider)
  | some (.resume a (.legacyNeedAdmitted m provider)) =>
    if a.failed ∨ w.hasRequest m.id ∨ e.link provider = .writable ∨ w.legacyWaiters provider then none
    else some (true, provider)
  | some (.resume a (.legacyResultCompleted _ r)) =>
    match w.objs[r]? with
    | some q =>
      if a.failed ∨ e.link q.requester = .writable ∨ w.legacyWaiters q.requester then none
      else some (true, q.requester)
    | none => none
  | some (.resume a (.stageMatched _ chain j)) =>
    match w.chainObjs[chain]?, e.offer with
    | some ch, .ok (some provider) =>
      if a.failed ∨ (pruneRequests o w).2 = false ∨
          (pruneRequests o w).1.hasRequest (compactStageRequestId ch.frame.i j) ∨
          e.link provider ≠ .absent ∨ w.fastWaiters provider then none
      else some (false, provider)
    | _, _ => none
  | _ => none

/-- A segment spares the queues of `n`: it writes without a look only where there is room, and does
    not evict the node. -/
def Spared (n : Id) (w : World) (t : Option Task) (x : Input × Env o) : Prop :=
  (∀ b, unchecked x.2 w t = some (b, n) → (w.backlog b n).length < o.maxQueuedEventsPerNode) ∧
    x.1.evicts ≠ some n

instance (n : Id) (w : World) (t : Option Task) (x : Input × Env o) : Decidable (Spared n w t x) := by
  unfold Spared; infer_instance

theorem files_idle (h : Idle (Files n) w s) : Files n w s.1 := h.rel

theorem files_reserve {m : Id} {w' : World} (h : w.reserveFastTerminal o m = some w') :
    Still w w' := by
  unfold World.reserveFastTerminal at h
  split at h
  · cases h
  · cases h
    exact ⟨rfl, rfl, rfl⟩

variable {requester provider : Id} {r chain : Ref} {frame : Frame} {m : Envelope} {c : Command}
  {j : ℕ} {v : Sys World Task}

theorem admitFastNeed_files {waitMs : ℕ} :
    Files n w (admitFastNeed o w requester frame waitMs provider).1 := by
  unfold admitFastNeed
  split
  · exact files_emit w (by simp)
  next w₁ hw₁ =>
  have h₁ : Files n w (pruneRequests o w₁).1 :=
    (files_reserve hw₁).files.trans (Still.files ⟨rfl, rfl, rfl⟩)
  have hback : Files n w ((pruneRequests o w₁).1.unreserveFastTerminal requester) :=
    h₁.trans (Still.files ⟨rfl, rfl, rfl⟩)
  split
  · split
    · next h =>
      have h₂ := (admitDirectNeedId_cases h).1
      exact h₁.trans (Still.files ⟨h₂.events, h₂.fast, h₂.log⟩)
    · exact hback.trans (files_emit _ (by simp))
  · exact hback.trans (files_emit _ (by simp))

theorem dispatchFastNeed_files {waitMs : ℕ}
    (h : w.hasRequest frame.i = false → provider = n → e.link provider = .absent →
      w.fastWaiters provider = false → (w.fastEvents provider).length < o.maxQueuedEventsPerNode) :
    Files n w (dispatchFastNeed o e w requester frame waitMs provider).1 := by
  unfold dispatchFastNeed
  split
  · exact files_emit w (by simp)
  next hfree =>
  simp only
  generalize hw₁ : (if 0 < waitMs then _ else _ : World) = w₁
  have h₁ : Still w w₁ ∧ w₁.fastWaiters = w.fastWaiters := by
    rw [← hw₁]
    split <;> exact ⟨⟨rfl, rfl, rfl⟩, rfl⟩
  have h₂ := h₁.1.files.trans (files_queueFast o e w₁ provider (.NEED frame.i requester) false
    fun _ hn hl hw => by
      rw [h₁.1.fast]
      exact h (eq_false_of_ne_true hfree) hn hl (h₁.2 ▸ hw))
  split
  · exact h₂.trans (files_emit _ (by simp))
  · exact h₂

theorem dispatchLegacyNeed_files
    (h : w.hasRequest m.id = false → provider = n → e.link provider ≠ .writable →
      w.legacyWaiters provider = false → (w.events provider).length < o.maxQueuedEventsPerNode) :
    Files n w (dispatchLegacyNeed o e w m provider).1 := by
  unfold dispatchLegacyNeed
  split
  · exact files_emit w (by simp)
  next hfree =>
  have h₁ : ∀ q, Still w (w.markMatchedRequest q) := fun _ => ⟨rfl, rfl, rfl⟩
  refine (h₁ _).files.trans (Files.trans (files_queue o e _ provider _ ?_) (files_emit _ (by simp)))
  exact fun hn hl hw => h (eq_false_of_ne_true hfree) hn hl hw

theorem files_complete (w : World) (r : Ref) (provider : Id) (now : Time) :
    Files n w (completeRequest w r provider now) := by
  have h := still_mark w r .completed
  refine Files.trans (v := ({ w.markRequestStatus r .completed with
    successfulTasks := Function.update w.successfulTasks provider
      (w.successfulTasks provider + 1) }).modify r fun q => { q with completedAt := some now })
    (Still.files ⟨h.events, h.fast, h.log⟩) (files_emit _ (by simp))

theorem checkResult_files {now : Time} :
    Files n w (checkResult w now provider frame r).1 := by
  unfold checkResult
  simp only
  split
  · exact files_emit w (by simp)
  split
  · exact files_emit w (by simp)
  split
  · split
    · exact files_emit w (by simp)
    split
    · exact files_emit w (by simp)
    · exact files_complete w r provider now
  · exact .refl w

theorem startLegacyResult_files : Files n w (startLegacyResult e w m).1 := by
  unfold startLegacyResult
  simp only
  split
  · exact files_emit w (by simp)
  split
  · exact .refl w
  split
  · exact files_emit w (by simp)
  split
  · exact files_emit w (by simp)
  split
  · exact files_emit w (by simp)
  split
  · exact files_complete w _ _ _
  · exact .refl w

theorem files_queueFastTerminal (o : Options) (e : Env o) (w : World) (m : Id) (r : Ref)
    (body : Signed) : Files n w (w.queueFastTerminal o e m (.RESULT r body)).1 := by
  have hemit : ∀ (w : World) tr, Files n w (w.emit (.sent m (.RESULT r body) tr)) := fun w tr =>
    files_emit w (by rintro ev ⟨⟩; rfl)
  unfold World.queueFastTerminal
  split
  · exact hemit w _
  split
  · exact Files.trans (v := w.setFastWaiter m false) (Still.files ⟨rfl, rfl, rfl⟩) (hemit _ _)
  split
  · exact .refl w
  · exact Files.trans (v := w.setFastTerminalEvents m (w.fastTerminalEvents m ++ [.RESULT r body]))
      (Still.files ⟨rfl, rfl, rfl⟩) (hemit _ _)

theorem deliverFastResult_files :
    Files n w (deliverFastResult o e w provider frame r).1 := by
  unfold deliverFastResult
  simp only
  split
  · exact .refl w
  next q hq =>
  have h := (still_release w r).files (n := n)
  split
  · refine h.trans ((still_finish _ _).files.trans (Files.trans (files_emit _ ?_)
      (files_emit _ (by simp))))
    rintro ev ⟨⟩
  split
  · exact h.trans ((files_queueFastTerminal o e _ _ _ _).trans (files_emit _ (by simp)))
  · exact h.trans ((files_queueFastTerminal o e _ _ _ _).trans (files_emit _ (by simp)))

theorem deliverLegacyResult_files
    (h : ∀ q : Request, w.objs[r]? = some q → q.requester = n → e.link q.requester ≠ .writable →
      w.legacyWaiters q.requester = false →
      (w.events q.requester).length < o.maxQueuedEventsPerNode) :
    Files n w (deliverLegacyResult o e w m r).1 := by
  unfold deliverLegacyResult
  split
  · exact .refl w
  next q hq =>
  have h₁ : Still w (w.modify r fun q => { q with result := some m }) := ⟨rfl, rfl, rfl⟩
  exact h₁.files.trans (Files.trans (files_queue o e _ q.requester _ fun hn hl hw =>
    h q hq hn hl hw) (files_emit _ (by simp)))

/-! ### Chains -/

theorem files_closeChain (w : World) (chain : Ref) (status : ℕ) (now : Time) :
    Files n w (closeChain w chain status now) := by
  cases hc : w.chainObjs[chain]? with
  | none =>
    rw [closeChain, hc]
    exact .refl w
  | some c =>
    rw [closeChain_eq hc]
    refine (Still.files ?_).trans (files_emit _ (by simp))
    cases c.currentStage.bind fun i => w.request (compactStageRequestId c.chainId i) with
    | none => exact ⟨rfl, rfl, rfl⟩
    | some r =>
      have h := still_mark (w.modifyChain chain (Chain.close status now)) r .failed
      simp only
      split
      · exact ⟨rfl, rfl, rfl⟩
      · exact ⟨h.events, h.fast, h.log⟩

theorem afterDispatch_files : Files n w (afterDispatch w c).1 :=
  files_idle afterDispatch_idle

theorem dispatchChainStage_files :
    Files n w (dispatchChainStage e w c chain j).1 := by
  unfold dispatchChainStage
  split
  · exact .refl w
  split
  · exact (files_closeChain _ _ _ _).trans afterDispatch_files
  split
  · exact (files_closeChain _ _ _ _).trans afterDispatch_files
  · exact .refl w

theorem matchChain_files {socket : Bool} :
    Files n w (matchChain o e w requester frame socket j).1 := by
  unfold matchChain
  simp only
  split
  · exact files_emit w (by simp)
  · exact files_emit w (by simp)
  split
  · exact files_idle checkStage_idle
  have hp : Still w (pruneChains o w).1 := ⟨rfl, rfl, rfl⟩
  split
  · exact hp.files.trans (files_emit _ (by simp))
  · have he : Still w (enterChain (pruneChains o w).1 requester frame socket e.now) :=
      ⟨rfl, rfl, rfl⟩
    exact he.files.trans dispatchChainStage_files

theorem matchChainStage_files
    (h : ∀ ch provider, w.chainObjs[chain]? = some ch → e.offer = .ok (some provider) →
      (pruneRequests o w).2 → (pruneRequests o w).1.hasRequest (compactStageRequestId ch.frame.i j) =
        false → provider = n → e.link provider = .absent → w.fastWaiters provider = false →
      (w.fastEvents provider).length < o.maxQueuedEventsPerNode) :
    Files n w (matchChainStage o e w c chain j).1 := by
  unfold matchChainStage
  split
  · exact .refl w
  next ch hch =>
  split
  · exact files_emit w (by simp)
  · exact (files_closeChain _ _ _ _).trans afterDispatch_files
  next provider hoff =>
  have hp : Still w (pruneRequests o w).1 := ⟨rfl, rfl, rfl⟩
  split
  · exact hp.files.trans (files_emit _ (by simp))
  next hroom =>
  split
  · exact hp.files.trans (files_emit _ (by simp))
  next hfree =>
  have hs : Files n (pruneRequests o w).1 (sendChainStage o e (pruneRequests o w).1 chain ch j
      provider) := by
    unfold sendChainStage
    simp only
    refine Files.trans (Still.files ?_) (files_queueFast o e _ provider _ false fun _ hn hl hw => ?_)
    · exact ⟨rfl, rfl, rfl⟩
    · exact h ch provider hch hoff (by simpa using hroom) (eq_false_of_ne_true hfree) hn hl hw
  exact hp.files.trans (hs.trans afterDispatch_files)

theorem storeStageResult_files :
    Files n w (storeStageResult e w provider frame r chain).1 := by
  unfold storeStageResult
  split
  · simp only
    generalize hw₁ : World.emit _ _ = w₁
    have h₁ : Files n w w₁ := by
      rw [← hw₁]
      have h₂ : ∀ u : World, Still w u → ∀ j res, Files n w (u.emit (.stored chain j res)) :=
        fun u hu j res => hu.files.trans (files_emit u (by simp))
      exact h₂ (w.modifyChain chain _) ⟨rfl, rfl, rfl⟩ _ _
    split
    · exact h₁.trans ((files_closeChain _ _ _ _).trans (files_emit _ (by simp)))
    split
    · exact h₁.trans dispatchChainStage_files
    · exact h₁.trans ((files_closeChain _ _ _ _).trans (files_emit _ (by simp)))
  · exact .refl w

theorem readStatus_files {id : Id} {durable : Option Record} :
    Files n w (readStatus e w requester id r durable).1 := by
  have hafter : ∀ w, Files n w (if (w.objs[r]?).any fun q => q.mode = .fast then
      expireFastRequest o w r e.now (.statusAnswer (.requestStatus requester id) (some r))
    else answer w (.requestStatus requester id) (some r) 409
      (some "request_status_requires_fast_need")).1 := fun w => by
    split
    · exact files_idle (expireFastRequest_idle rfl)
    · exact files_emit w (by simp)
  unfold readStatus
  simp only
  split
  · split
    · exact (still_mark w r _).files.trans (hafter _)
    · exact hafter _
  · exact hafter _

/-- Polls and fresh sockets of `n`. -/
def Input.takes (n : Id) : Input → Bool
  | .takeEvents m _ _ _ => m = n
  | _ => false

theorem proceed_files (hs : ∀ k, t = some k → Fits o w k) {a : Awaited} {k : Cont}
    (ht : t = some (.resume a k)) (ha : a.failed = false) {i : Input} (hG : Spared n w t (i, e)) :
    Files n w (proceed o e w a k).1 := by
  subst ht
  have hroom : ∀ b m, unchecked (o := o) e w (some (.resume a k)) = some (b, m) → m = n →
      (w.backlog b m).length < o.maxQueuedEventsPerNode := by
    rintro b m hm rfl
    exact hG.1 b hm
  cases k with
  | fastNeedSwept q frame m p => exact admitFastNeed_files
  | fastNeedAdmitted q frame m p =>
    refine dispatchFastNeed_files fun hid hp hl hw => hroom false p ?_ hp
    simp [unchecked, ha, hid, hl, hw]
  | legacyNeedAdmitted m p =>
    refine dispatchLegacyNeed_files fun hid hp hl hw => hroom true p ?_ hp
    simp [unchecked, ha, hid, hl, hw]
  | resultChecked p frame r => exact checkResult_files
  | resultCommitted p frame r => exact files_complete w r p e.now
  | resultCompleted p frame r => exact deliverFastResult_files
  | legacyResultCommitted m r => exact files_complete w r m.sender e.now
  | legacyResultCompleted m r =>
    refine deliverLegacyResult_files fun q hq hn hl hw => hroom true q.requester ?_ hn
    simp [unchecked, hq, ha, hl, hw]
  | chainMatched q frame s j => exact matchChain_files
  | stageMatched c chain j =>
    refine matchChainStage_files fun ch p hch hoff hprune hid hp hl hw => hroom false p ?_ hp
    simp [unchecked, hch, hoff, ha, hprune, hid, hl, hw]
  | stageCompleted p frame r chain => exact storeStageResult_files
  | statusRead q id r => exact readStatus_files
  | _ => exact files_idle (proceed_idle (hs _ rfl).shape rfl)

/-- FILES: what the machine does to the queues of a node that is spared, polls apart. -/
theorem files_of_machine (ht : ∀ x ∈ t, Fits o w x) {x : Input × Env o} {ts : List Task}
    (hG : Spared n w t x) (hx : x.1.takes n = false) (h : machine o w t x = some (w', ts)) :
    Files n w w' := by
  obtain ⟨x, e⟩ := x
  have hsame : ∀ {v : World}, Still w v → Files n w v := fun hv => hv.files
  cases t with
  | none =>
    cases x with
    | start c =>
      have h := Option.some.inj h
      have hw : w' = (startCommand o e w c).1 := by rw [h]
      rw [hw]
      cases c with
      | legacyResult m => exact startLegacyResult_files
      | _ => exact files_idle (startCommand_idle (by simp))
    | chainTimeout chain =>
      cases h
      unfold chainTimeout
      split
      · exact .refl w
      · exact files_closeChain _ _ _ _
    | takeEvents m l f k =>
      cases h
      have hm : m ≠ n := by simpa [Input.takes] using hx
      refine ⟨fun b => ?_, [], rfl, fun _ h _ => absurd h List.not_mem_nil⟩
      have : (takeEvents w m l f k).backlog b n = w.backlog b n := by
        cases b <;> simp [takeEvents, World.backlog, World.setEvents, World.setFastEvents,
          World.setFastTerminalEvents, hm.symm]
      rw [this]
    | evict m =>
      cases h
      have hm : m ≠ n := fun hm => hG.2 (congrArg some hm)
      refine ⟨fun b => ?_, [], rfl, fun _ h _ => absurd h List.not_mem_nil⟩
      have : (evict w m).backlog b n = w.backlog b n := by
        cases b <;> simp [evict, World.backlog, World.setEvents, World.setFastEvents,
          World.setFastTerminalEvents, World.setReservations, hm.symm]
      rw [this]
    | peer _ _ | resultWaitTimeout _ | setFastWaiter _ _ | setLegacyWaiter _ _ =>
      cases h
      exact hsame ⟨rfl, rfl, rfl⟩
    | _ => cases h
  | some y =>
    cases y with
    | call c k =>
      cases x with
      | exec =>
        cases h
        exact hsame ⟨rfl, rfl, rfl⟩
      | lose f =>
        obtain ⟨-, h⟩ := Option.ite_none_right_eq_some.mp h
        cases h
        exact hsame ⟨rfl, rfl, rfl⟩
      | giveUp f | fail f =>
        obtain ⟨-, h⟩ := Option.ite_none_right_eq_some.mp h
        cases h
        exact .refl w
      | _ => cases h
    | read id k =>
      cases x with
      | read age =>
        cases h
        exact .refl w
      | fail f =>
        obtain ⟨-, h⟩ := Option.ite_none_right_eq_some.mp h
        cases h
        exact .refl w
      | _ => cases h
    | resume a k =>
      cases x with
      | go =>
        have hfit := ht _ rfl
        have h := Option.some.inj h
        have hw : w' = (resume o e w a k).1 := by rw [h]
        rw [hw]
        cases a with
        | fault f =>
          cases hk : k.reserves with
          | none => exact files_idle (onFault_idle hfit.shape hk)
          | some m =>
            cases k with
            | fastNeedAdmitted q frame _ p =>
              refine Files.trans (v := w.unreserveFastTerminal q) (hsame ⟨rfl, rfl, rfl⟩) ?_
              exact files_emit _ (by simp)
            | _ => cases hk
        | _ => exact proceed_files (fun _ hk => ht _ hk) rfl rfl hG
      | _ => cases h

/-! ### Runs -/

/-- A segment of a relay in which `n` is spared moves its queues only at their ends. -/
theorem files_step {u : Sys World Task} {l : Label (Input × Env o)} (hu : Holds (Sane o) (Fits o) u)
    (hG : ∀ p, pick u.tasks l.1 = some p → Spared n u.shared p.1 l.2) (hx : l.2.1.takes n = false)
    (hstep : step (machine o) u l = some v) :
    Files n u.shared v.shared := by
  obtain ⟨t, rest, w, ts, hp, hperm, hM, rfl⟩ := step_cases hstep
  refine files_of_machine (fun x hx => ?_) (hG _ hp) hx hM
  exact hu.2 x (hperm.mem_iff.mpr (List.mem_append_left _ (by simpa using hx)))

/-- What a poll of `n` leaves. -/
theorem takes_step {u : Sys World Task} {l : Label (Input × Env o)}
    (hstep : step (machine o) u l = some v) (hx : l.2.1.takes n) :
    ∃ legacy fast terminal e, l = (none, .takeEvents n legacy fast terminal, e) ∧
      ∀ b, v.shared.backlog b n = (u.shared.backlog b n).drop (if b then legacy else fast) := by
  obtain ⟨i, x, e⟩ := l
  cases x with
  | takeEvents m legacy fast terminal =>
    obtain rfl : m = n := by simpa [Input.takes] using hx
    obtain ⟨t, rest, w, ts, hp, -, hM, rfl⟩ := step_cases hstep
    cases t with
    | none =>
      cases hM
      cases i with
      | some j =>
        obtain ⟨_, -, h⟩ := Option.map_eq_some_iff.mp hp
        cases h
      | none =>
        refine ⟨legacy, fast, terminal, e, rfl, fun b => ?_⟩
        cases b <;> simp [takeEvents, World.backlog, World.setEvents, World.setFastEvents,
          World.setFastTerminalEvents]
    | some y => cases y <;> cases hM
  | _ => cases hx

/-- A poll of `n` returned an event of a queue at some point of a run. -/
def Returned (o : Options) (n : Id) (b : Bool) (ev : Event) (v x : Sys World Task) : Prop :=
  ∃ s s' legacy fast terminal e, Runs (machine o) (Spared n) v s ∧
    step (machine o) s (none, .takeEvents n legacy fast terminal, e) = some s' ∧
    Runs (machine o) (Spared n) s' x ∧
    ev ∈ (s.shared.backlog b n).take (if b then legacy else fast)

/-- An event in a queue of a node that is spared stays until a poll returns it. -/
theorem queued_stays {x : Sys World Task} (hv : Holds (Sane o) (Fits o) v)
    (h : Runs (machine o) (Spared n) v x) {b : Bool} {ev : Event}
    (hev : ev ∈ v.shared.backlog b n) :
    ev ∈ x.shared.backlog b n ∨ Returned o n b ev v x := by
  induction h with
  | refl => exact .inl hev
  | @tail u x l hr hG hstep ih =>
    have hu := hr.sound (sane_sound o (Spared n)) hv
    rcases ih with hin | ⟨s₁, s₂, legacy, fast, terminal, e, h₁, hs, h₂, hmem⟩
    · cases hx : l.2.1.takes n with
      | false => exact .inl (((files_step hu hG hx hstep).ahead b).subset hin)
      | true =>
        obtain ⟨legacy, fast, terminal, e, rfl, hdrop⟩ := takes_step hstep hx
        rw [← List.take_append_drop (if b then legacy else fast) (u.shared.backlog b n),
          List.mem_append] at hin
        rcases hin with hin | hin
        · exact .inr ⟨u, x, legacy, fast, terminal, e, hr, hstep, .refl x, hin⟩
        · exact .inl (by rw [hdrop b]; exact hin)
    · exact .inr ⟨s₁, s₂, legacy, fast, terminal, e, h₁, hs, h₂.tail hG hstep, hmem⟩

/-- KEPT: a cancellation or PARTIAL that was reported as queued for a node is in one of its queues,
    and stays there until a poll of the node returns it, as long as the node is spared. -/
theorem acknowledged_kept (o : Options) (ledger : Option Book)
    (hl : ∀ b ∈ ledger, ∀ id, b id = []) {n : Id} {ev : Event} {u v x : Sys World Task}
    {l : Label (Input × Env o)} (h : Runs (machine o) free (init ledger) u)
    (hG : ∀ p, pick u.tasks l.1 = some p → Spared n u.shared p.1 l.2)
    (hstep : step (machine o) u l = some v) {out : List Output}
    (hlog : v.shared.log = out ++ u.shared.log) (hsent : .sent n ev .queued ∈ out) (hk : ev.kept)
    (hrun : Runs (machine o) (Spared n) v x) :
    ∃ b, ev ∈ v.shared.backlog b n ∧ (ev ∈ x.shared.backlog b n ∨ Returned o n b ev v x) := by
  have hu := h.sound (sane_sound o free) (holds_init o hl)
  have hv := ((sane_sound o (Spared n)).step hu hG hstep).1
  have hx : l.2.1.takes n = false := by
    cases hx : l.2.1.takes n with
    | false => rfl
    | true =>
      obtain ⟨legacy, fast, terminal, e, rfl, -⟩ := takes_step hstep hx
      cases hstep
      have : out = [] := List.self_eq_append_left.mp hlog
      rw [this] at hsent
      exact absurd hsent List.not_mem_nil
  obtain ⟨out', hlog', hfiled⟩ := (files_step hu hG hx hstep).filed
  obtain rfl : out = out' := List.append_cancel_right (hlog.symm.trans hlog')
  obtain ⟨b, hb⟩ := hfiled ev hsent hk
  exact ⟨b, hb, queued_stays hv hrun hb⟩

/-- A relay with room for one event of each node. -/
def narrow : Options := { small with maxQueuedEventsPerNode := 1 }

/-- Node 1 has no socket open, and the matching picks this provider. -/
def offline (provider : Id) : Env narrow :=
  { now := 1, key := some, keys := fun _ _ h => (Option.some.inj h).symm ▸ rfl
    canDispatch := fun _ => true, link := fun n => if n = [1] then .absent else .writable
    offer := .ok (some provider), next := none, auth := none, needFound := false }

/-- Frame 0 of NEED 9. -/
def firstFrame : Frame := { signed .PARTIAL [9] [2] with sequence := some 0 }

/-- Node 1 asks NEED 9 of provider 2, whose frame 0 is checked. -/
def streamNine : List (Label (Input × Env narrow)) :=
  [(none, .start (.fastNeed [1] (signed .NEED [9] [1]) 0), offline [2]), (some 0, .go, offline [2]),
    (some 0, .go, offline [2]), (some 0, .go, offline [2]), (some 0, .go, offline [2]),
    (none, .start (.fastPartial [2] firstFrame), offline [2]), (some 0, .go, offline [2])]

/-- Node 3 asks NEED 7 of provider 1. -/
def askSeven : List (Label (Input × Env narrow)) :=
  [(none, .start (.fastNeed [3] (signed .NEED [7] [3]) 0), offline [1]), (some 0, .go, offline [1]),
    (some 0, .go, offline [1]), (some 0, .go, offline [1]), (some 0, .go, offline [1])]

/-- Frame 0 of NEED 9 is queued for node 1 and stays while the RESULT is delivered. -/
theorem frame_kept : ∃ v x b, Runs (machine narrow) (Spared [1]) v x ∧
    .PARTIAL 0 firstFrame ∈ v.shared.backlog b [1] ∧
    (.PARTIAL 0 firstFrame ∈ x.shared.backlog b [1] ∨
      Returned narrow [1] b (.PARTIAL 0 firstFrame) v x) := by
  obtain ⟨u, h, hu⟩ := exists_run (M := machine narrow) (s := init none) (fun _ _ _ => true)
    (fun _ _ _ _ => trivial) streamNine
    (fun u => ((pick u.tasks (some 0)).all fun p =>
        decide (Spared [1] u.shared p.1 (.go, offline [2]))) ∧
      (step (machine narrow) u (some 0, .go, offline [2])).any fun v =>
        v.shared.log = [.answered (.fastPartial [2] firstFrame) (some 0) 200 none,
          .sent [1] (.PARTIAL 0 firstFrame) .queued] ++ u.shared.log ∧
        (replay (machine narrow) (fun w t x => decide (Spared [1] w t x)) v
          [(none, .start (.fastResult [2] (signed .RESULT [9] [2])), offline [2]),
            (some 0, .go, offline [2])]).any fun _ => true) (by decide)
  obtain ⟨hG, hv⟩ := of_decide_eq_true hu
  obtain ⟨v, hstep, hv⟩ := (Option.any_eq_true _ _).mp hv
  obtain ⟨hlog, hx⟩ := of_decide_eq_true hv
  obtain ⟨x, hrun, -⟩ := exists_run (G := Spared [1]) _ (fun _ _ _ => of_decide_eq_true) _ _ hx
  obtain ⟨b, hb, hkept⟩ := acknowledged_kept narrow none (by simp) h
    (fun p hp => of_decide_eq_true ((Option.all_eq_true _ _).mp hG p hp)) hstep hlog
    (List.mem_cons_of_mem _ (List.mem_singleton_self (Output.sent [1] (.PARTIAL 0 firstFrame) .queued)))
    rfl hrun
  exact ⟨v, x, b, hrun, hb, hkept⟩

/-- A NEED for node 1 pushes the acknowledged frame out of its full queue: nobody polled, nobody was
    evicted. -/
theorem frame_dropped : ∃ s s', Runs (machine narrow) free (init none) s ∧
    s.shared.log.head? = some (.answered (.fastPartial [2] firstFrame) (some 0) 200 none) ∧
    s.shared.fastEvents [1] = [.PARTIAL 0 firstFrame] ∧
    Runs (machine narrow) (fun _ _ x => x.1.takes [1] = false ∧ x.1.evicts = none) s s' ∧
    s'.shared.fastEvents [1] = [.NEED [7] [3]] := by
  obtain ⟨s, h, hs⟩ := exists_run (M := machine narrow) (s := init none) (fun _ _ _ => true)
    (fun _ _ _ _ => trivial) (streamNine ++ [(some 0, .go, offline [2])])
    (fun s => (s.shared.log.head? = some (.answered (.fastPartial [2] firstFrame) (some 0) 200
        none) ∧ s.shared.fastEvents [1] = [.PARTIAL 0 firstFrame]) ∧
      (replay (machine narrow) (fun _ _ x => x.1.takes [1] = false ∧ x.1.evicts = none) s
        askSeven).any fun s' => s'.shared.fastEvents [1] = [.NEED [7] [3]]) (by decide)
  obtain ⟨⟨hhead, hq⟩, hrest⟩ := of_decide_eq_true hs
  obtain ⟨s', h', hs'⟩ := exists_run
    (G := fun _ _ x => x.1.takes [1] = false ∧ x.1.evicts = none) _
    (fun _ _ _ => of_decide_eq_true) askSeven _ hrest
  exact ⟨s, s', h, hhead, hq, h', of_decide_eq_true hs'⟩

end Truyn.Relay
