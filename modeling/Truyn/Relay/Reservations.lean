import Truyn.Relay.Idle

/-! relay:reservations | what a segment does to the terminal reservations of a requester

    A requester reserves room for the terminal event of each fast NEED; the request holds the
    reservation until it ends. `Calm w w'` says that `w'` is `w` but for requests that ended and
    gave their reservation back. Every segment is calm, or one of the few others of `Booking`. -/

namespace Truyn.Relay
open Async Cas
open Ledger (Fault NeedStatus Time Record Answer Awaited Call)

/-! ### Counting -/

/-- One entry changed: the count changes by what that entry counted. -/
theorem countP_modify {α : Type*} (P : α → Bool) (f : α → α) : ∀ (l : List α) (r : ℕ) {q : α},
    l[r]? = some q → (l.modify r f).countP P + (P q).toNat = l.countP P + (P (f q)).toNat
  | a :: l, 0, q, h => by
    rw [List.getElem?_cons_zero] at h
    cases h
    rw [List.modify_zero_cons, List.countP_cons, List.countP_cons]
    cases P a <;> cases P (f a) <;> simp
  | a :: l, r + 1, q, h => by
    rw [List.getElem?_cons_succ] at h
    have ih := countP_modify P f l r h
    rw [List.modify_succ_cons, List.countP_cons, List.countP_cons]
    omega

/-- A request that holds a terminal reservation of node `n`. -/
def Request.holds (n : Id) (q : Request) : Bool := q.terminalReserved ∧ q.requester = n

/-- How many requests hold a reservation of node `n`. -/
def World.holding (w : World) (n : Id) : ℕ := w.objs.countP (Request.holds n)

/-- The reservations of `n` that a suspended admission holds. -/
def reserving (n : Id) (x : Task) : ℕ := if x.cont.reserves = some n then 1 else 0

/-- The request of a RESULT step that has completed it and not given its reservation back. -/
def Cont.finishes : Cont → Option Ref
  | .resultCompleted _ _ r => some r
  | _ => none

def Task.finishes : Task → Option Ref
  | .resume .nothing k => k.finishes
  | _ => none

theorem finishes_resume {a : Awaited} {k : Cont} (h : k.finishes = none) :
    (Task.resume a k).finishes = none := by
  cases a
  · exact h
  all_goals rfl

/-! ### Calm changes -/

/-- `w'` is `w` but for requests that gave their reservation back. -/
structure Calm (w w' : World) : Prop where
  terminal : w'.fastTerminalEvents = w.fastTerminalEvents
  even : ∀ n, w.holding n ≤ w.fastTerminalReservations n →
    w'.fastTerminalReservations n + w.holding n = w.fastTerminalReservations n + w'.holding n
  le : ∀ n, w'.fastTerminalReservations n ≤ w.fastTerminalReservations n
  reserved : ∀ (r : Ref) (q' : Request), w'.objs[r]? = some q' → q'.terminalReserved →
    ∃ q : Request, w.objs[r]? = some q ∧ q.terminalReserved ∧ q.mode = q'.mode ∧
      q.requester = q'.requester ∧ (q.status = .matched → q'.status = .matched)

theorem Calm.refl (w : World) : Calm w w :=
  ⟨rfl, fun _ _ => rfl, fun _ => le_rfl, fun _ q hq hr => ⟨q, hq, hr, rfl, rfl, id⟩⟩

variable {v w' : World} {q' q : Request} {r : Ref} {f : Request → Request} {m : Envelope}

theorem Calm.trans {u w : World} (h : Calm u v) (h' : Calm v w) : Calm u w where
  terminal := h'.terminal.trans h.terminal
  even n hn := by
    have h₁ := h.even n hn
    have h₂ := h'.even n (by omega)
    omega
  le n := (h'.le n).trans (h.le n)
  reserved r q hq hr := by
    obtain ⟨q₁, hq₁, hr₁, hm₁, hn₁, hs₁⟩ := h'.reserved r q hq hr
    obtain ⟨q₂, hq₂, hr₂, hm₂, hn₂, hs₂⟩ := h.reserved r q₁ hq₁ hr₁
    exact ⟨q₂, hq₂, hr₂, hm₂.trans hm₁, hn₂.trans hn₁, hs₁ ∘ hs₂⟩

/-- An object after a change of one. -/
theorem get_modify {w : World} {s : Ref} (h : (w.modify r f).objs[s]? = some q') :
    ∃ q, w.objs[s]? = some q ∧ (r = s ∧ q' = f q ∨ r ≠ s ∧ q' = q) := by
  rw [World.modify, List.getElem?_modify] at h
  obtain ⟨q, hq, rfl⟩ := Option.map_eq_some_iff.mp h
  refine ⟨q, hq, ?_⟩
  by_cases hrs : r = s
  · exact .inl ⟨hrs, if_pos hrs⟩
  · exact .inr ⟨hrs, if_neg hrs⟩

/-- The books are the same. -/
structure Same (w w' : World) : Prop where
  objs : w'.objs = w.objs
  reservations : w'.fastTerminalReservations = w.fastTerminalReservations
  terminal : w'.fastTerminalEvents = w.fastTerminalEvents

theorem Plain.same {w : World} (h : Plain w w') : Same w w' := ⟨h.objs, h.reservations, h.terminal⟩

theorem Same.refl (w : World) : Same w w := ⟨rfl, rfl, rfl⟩

theorem Same.trans {u w : World} (h : Same u v) (h' : Same v w) : Same u w :=
  ⟨h'.objs.trans h.objs, h'.reservations.trans h.reservations, h'.terminal.trans h.terminal⟩

theorem Same.calm {w : World} (h : Same w w') : Calm w w' where
  terminal := h.terminal
  even n _ := by rw [World.holding, World.holding, h.objs, h.reservations]
  le n := by rw [h.reservations]
  reserved r q hq hr := ⟨q, h.objs ▸ hq, hr, rfl, rfl, id⟩

theorem Same.modify {w : World} (h : Same w w') (r : Ref) (f : Request → Request) :
    Same (w.modify r f) (w'.modify r f) :=
  ⟨by rw [World.modify, World.modify, h.objs], h.reservations, h.terminal⟩

theorem Same.release {w : World} (h : Same w w') (r : Ref) :
    Same (w.releaseFastTerminal r) (w'.releaseFastTerminal r) := by
  unfold World.releaseFastTerminal
  rw [h.objs]
  split
  · exact h
  · split
    · have hm := h.modify r fun q => { q with terminalReserved := false }
      refine ⟨hm.objs, ?_, hm.terminal⟩
      simp only [World.unreserveFastTerminal, World.setReservations, hm.reservations]
    · exact h

theorem same_mark (w : World) (r : Ref) (status : NeedStatus) :
    Same (w.setStatus r status) (w.markRequestStatus r status) := by
  unfold World.markRequestStatus
  split
  · next h =>
    have : w.setStatus r status = w := by
      rw [World.setStatus, World.modify, List.modify_eq_self (by simpa using h)]
    rw [this]
    exact .refl w
  · split <;> exact ⟨rfl, rfl, rfl⟩

theorem same_finish (w : World) (id : Id) : Same w (w.finishResultWaiter id).1 :=
  (plain_finish w id).same

theorem same_queueFast (o : Options) (e : Env o) (w : World) (n : Id) (ev : Event) (b : Bool) :
    Same w (w.queueFast o e n ev b).1 := by
  unfold World.queueFast
  split
  · exact ⟨rfl, rfl, rfl⟩
  split
  · exact .refl w
  split
  · exact ⟨rfl, rfl, rfl⟩
  split
  · exact .refl w
  · exact ⟨rfl, rfl, rfl⟩

theorem same_queue (o : Options) (e : Env o) (w : World) (n : Id) (ev : Event) :
    Same w (w.queue o e n ev) := by
  unfold World.queue
  split
  · exact ⟨rfl, rfl, rfl⟩
  split <;> exact ⟨rfl, rfl, rfl⟩

theorem same_queueCritical (o : Options) (e : Env o) (w : World) (n : Id) (ev : Event) :
    Same w (w.queueCritical o e n ev).1 := by
  unfold World.queueCritical
  split
  · exact ⟨rfl, rfl, rfl⟩
  split
  · exact .refl w
  split
  · exact ⟨rfl, rfl, rfl⟩
  split
  · exact .refl w
  · exact ⟨rfl, rfl, rfl⟩

theorem same_queueCancellation (o : Options) (e : Env o) (w : World) (q : Request) (ev : Event) :
    Same w (w.queueCancellation o e q ev).1 := by
  unfold World.queueCancellation
  split
  · exact same_queueFast o e w q.provider ev true
  · exact same_queueCritical o e w q.provider ev

/-- What a reservation knows of its request. -/
def Request.lease (q : Request) : Bool × Mode × Id × NeedStatus :=
  (q.terminalReserved, q.mode, q.requester, q.status)

theorem holds_lease (h : q'.lease = q.lease) (n : Id) : q'.holds n = q.holds n := by
  simp only [Request.lease, Prod.mk.injEq] at h
  rw [Request.holds, Request.holds, h.1, h.2.2.1]

/-- Changing what no reservation knows. -/
theorem calm_modify (w : World) (r : Ref) (h : ∀ q, (f q).lease = q.lease) :
    Calm w (w.modify r f) where
  terminal := rfl
  even n _ := by
    cases hq : w.objs[r]? with
    | none => rw [World.modify, List.modify_eq_self (by simpa using hq)]
    | some q =>
      have := countP_modify (Request.holds n) f w.objs r hq
      rw [holds_lease (h q) n] at this
      simp only [World.modify, World.holding]
      omega
  le n := le_rfl
  reserved s q' hq' hr' := by
    obtain ⟨q, hq, ⟨-, rfl⟩ | ⟨-, rfl⟩⟩ := get_modify hq'
    · have := h q
      simp only [Request.lease, Prod.mk.injEq] at this
      obtain ⟨h₁, h₂, h₃, h₄⟩ := this
      exact ⟨q, hq, h₁ ▸ hr', h₂.symm, h₃.symm, fun hs => h₄.trans hs⟩
    · exact ⟨q', hq, hr', rfl, rfl, id⟩

/-- A request ends and gives its reservation back. -/
theorem calm_end (w : World) (r : Ref)
    (h : ∀ q, (f q).terminalReserved = q.terminalReserved ∧ (f q).requester = q.requester) :
    Calm w ((w.modify r f).releaseFastTerminal r) := by
  cases hq : w.objs[r]? with
  | none =>
    have : w.modify r f = w := by rw [World.modify, List.modify_eq_self (by simpa using hq)]
    rw [this, World.releaseFastTerminal, hq]
    exact .refl w
  | some q =>
    have hget : (w.modify r f).objs[r]? = some (f q) := by
      simp [World.modify, hq]
    have hholds : ∀ n, (f q).holds n = q.holds n := fun n => by
      rw [Request.holds, Request.holds, (h q).1, (h q).2]
    rw [World.releaseFastTerminal, hget]
    simp only
    split
    · next hf =>
      have hq' : q.terminalReserved := (h q).1 ▸ hf
      refine ⟨rfl, fun n hn => ?_, fun n => ?_, fun s q' hs hr => ?_⟩
      · have h₁ := countP_modify (Request.holds n) f w.objs r hq
        have h₂ := countP_modify (Request.holds n) (fun q => { q with terminalReserved := false })
          (w.objs.modify r f) r hget
        have h₃ : Request.holds n { f q with terminalReserved := false } = false := by
          simp [Request.holds]
        rw [hholds n] at h₁ h₂
        rw [h₃] at h₂
        simp only [World.unreserveFastTerminal, World.setReservations, World.modify,
          World.holding, (h q).2, Function.update_apply] at hn ⊢
        split
        · next heq =>
          have h₄ : q.holds n = true := by simp [Request.holds, hq', heq]
          rw [h₄] at h₁ h₂
          simp only [Bool.toNat_true, Bool.toNat_false] at h₁ h₂
          rw [heq] at hn h₁ h₂ ⊢
          omega
        · next hne =>
          have h₄ : q.holds n = false := by
            simp only [Request.holds, hq', true_and, decide_eq_false_iff_not]
            exact fun heq => hne heq.symm
          rw [h₄] at h₁ h₂
          simp only [Bool.toNat_false] at h₁ h₂
          omega
      · simp only [World.unreserveFastTerminal, World.setReservations, World.modify,
          Function.update_apply]
        split
        · next heq => rw [heq]; omega
        · exact le_rfl
      · obtain ⟨q₀, hq₀, ⟨-, rfl⟩ | ⟨hne, rfl⟩⟩ := get_modify (w := w.modify r f) hs
        · cases hr
        · obtain ⟨q₁, hq₁, ⟨heq, -⟩ | ⟨-, rfl⟩⟩ := get_modify hq₀
          · exact absurd heq hne
          · exact ⟨_, hq₁, hr, rfl, rfl, id⟩
    · next hf =>
      have hq' : q.terminalReserved = false := by rw [← (h q).1]; simpa using hf
      refine ⟨rfl, fun n _ => ?_, fun n => le_rfl, fun s q' hs hr => ?_⟩
      · have h₁ := countP_modify (Request.holds n) f w.objs r hq
        rw [hholds n] at h₁
        simp only [World.modify, World.holding]
        omega
      · obtain ⟨q₁, hq₁, ⟨rfl, rfl⟩ | ⟨-, rfl⟩⟩ := get_modify hs
        · cases hq.symm.trans hq₁
          rw [(h q).1, hq'] at hr
          cases hr
        · exact ⟨_, hq₁, hr, rfl, rfl, id⟩

theorem calm_release (w : World) (r : Ref) : Calm w (w.releaseFastTerminal r) := by
  have := calm_end w r (f := id) fun q => ⟨rfl, rfl⟩
  rwa [World.modify, show w.objs.modify r id = w.objs from List.modify_id _ _] at this

/-- A request that reserves nothing is created. -/
theorem calm_create (w : World) (h : q.terminalReserved = false) :
    Calm w (w.markMatchedRequest q) where
  terminal := rfl
  even n _ := by
    have : q.holds n = false := by simp [Request.holds, h]
    simp [World.markMatchedRequest, World.holding, World.setInFlight, this]
  le n := le_rfl
  reserved s q' hq' hr' := by
    rw [World.markMatchedRequest, List.getElem?_append] at hq'
    split at hq'
    · exact ⟨q', hq', hr', rfl, rfl, id⟩
    · obtain rfl := List.mem_singleton.mp (List.mem_of_getElem? hq')
      rw [h] at hr'
      cases hr'

/-- An expiry gives the reservation back. -/
theorem calm_failExpired (w : World) (r : Ref) (now : Time) : Calm w (failExpired w r now) := by
  unfold failExpired
  split
  · exact .refl w
  next q hq =>
  have h := ((same_mark w r .failed).modify r fun q =>
    { q with failedAt := some now, failureReason := some "request_expired" }).release r
  have h₁ : Calm w (((w.setStatus r .failed).modify r fun q =>
      { q with failedAt := some now, failureReason := some "request_expired" }).releaseFastTerminal
        r) := by
    have hm : (w.setStatus r .failed).modify r (fun q =>
        { q with failedAt := some now, failureReason := some "request_expired" }) =
          w.modify r fun q => { q with
            status := .failed, failedAt := some now, failureReason := some "request_expired" } := by
      simp only [World.setStatus, World.modify, List.modify_modify_eq]
      rfl
    rw [hm]
    exact calm_end w r fun q => ⟨rfl, rfl⟩
  exact h₁.trans (h.trans (same_finish _ _)).calm

/-- A cancellation gives the reservation back. -/
theorem calm_cancelled (w : World) (r : Ref) (now : Time) (id : Id) :
    Calm w ((((w.markRequestStatus r .cancelled).modify r fun q =>
      { q with cancelledAt := some now }).releaseFastTerminal r).finishResultWaiter id).1 := by
  have h := ((same_mark w r .cancelled).modify r fun q =>
    { q with cancelledAt := some now }).release r
  refine Calm.trans ?_ (h.trans (same_finish _ _)).calm
  have hm : (w.setStatus r .cancelled).modify r (fun q => { q with cancelledAt := some now }) =
      w.modify r fun q => { q with status := .cancelled, cancelledAt := some now } := by
    simp only [World.setStatus, World.modify, List.modify_modify_eq]
    rfl
  rw [hm]
  exact calm_end w r fun q => ⟨rfl, rfl⟩

instance : Minor Calm where
  refl := .refl
  trans := .trans
  plain h := h.same.calm
  answered _ _ _ _ _ := Same.calm ⟨rfl, rfl, rfl⟩
  expired := calm_failExpired
  cancelled := calm_cancelled
  revoked o e w q id := (same_queueCancellation o e w q (.REVOKE id)).calm
  streamed o e w q r frame := (same_queueFast o e w q.requester (.PARTIAL r frame) true).calm
  advanced w r _ _ _ _ := calm_modify w r fun _ => rfl

variable {o : Options} {e : Env o} {w : World}

theorem dispatchLegacyNeed_idle {provider : Id} :
    Idle Calm w (dispatchLegacyNeed o e w m provider) := by
  unfold dispatchLegacyNeed
  split
  · exact idle_answer
  · exact .after ((calm_create w rfl).trans (same_queue o e _ _ _).calm) idle_answer

theorem deliverLegacyResult_idle :
    Idle Calm w (deliverLegacyResult o e w m r) := by
  unfold deliverLegacyResult
  split
  · exact idle_nil (.refl w)
  · refine .after ((calm_modify w r ?_).trans (same_queue o e _ _ _).calm) idle_answer
    exact fun _ => rfl

theorem calm_sendChainStage (chain : Ref) (ch : Chain) (j : ℕ) (provider : Id) :
    Calm w (sendChainStage o e w chain ch j provider) := by
  have h : Calm w (w.markMatchedRequest (stageRequest chain ch j provider e.now)) :=
    calm_create w rfl
  refine h.trans (Same.calm (Same.trans (v := (w.markMatchedRequest
    (stageRequest chain ch j provider e.now)).modifyChain chain (Chain.assign j provider)) ?_ ?_))
  · exact ⟨rfl, rfl, rfl⟩
  · exact same_queueFast o e _ _ _ _

end Truyn.Relay
