import Truyn.Relay.Admission

/-! relay:status | how the status of a request changes

    Every change of a status has one of the causes of `Change`: an expiry check, a handler that
    settles the request after its ledger call, a status poll that takes over the ledger's status,
    the RESULT of a stage, or the end of a chain. No cause leads back to `matched`. -/

namespace Truyn.Relay
open Async
open Ledger (NeedStatus Time Awaited)

variable {o : Options} {i : Input} {t : Option Task} {w w' : World}

/-- The request that is settled here, and its status then. -/
def Cont.settles : Cont → Option (Ref × NeedStatus)
  | .expire r _ _ => some (r, .failed)
  | .resultCommitted _ _ r => some (r, .completed)
  | .legacyResultCommitted _ r => some (r, .completed)
  | .revokeCommitted _ r => some (r, .cancelled)
  | _ => none

/-- The chain that a segment may close. -/
def closes (i : Input) : Option Task → Option Ref
  | none => match i with
    | .chainTimeout chain => some chain
    | _ => none
  | some (.resume _ (.stageMatched _ chain _)) => some chain
  | some (.resume _ (.stageCompleted _ _ _ chain)) => some chain
  | _ => none

/-- Why the status of the request `r`, which was `q`, is another one after a segment. -/
inductive Change (i : Input) (t : Option Task) (w : World) (r : Ref) (q : Request) :
    NeedStatus → Prop
  | expired : w.ledger = none → q.status = .matched → Change i t w r q .failed
  | settled {a k status} : t = some (.resume a k) → a.failed = false →
      k.settles = some (r, status) → Change i t w r q status
  | adopted {d n id} : t = some (.resume (.record (some d)) (.statusRead n id r)) →
      d.status ≠ .matched → Change i t w r q d.status
  | stage : q.stage.isSome → q.status = .matched → Change i t w r q .completed
  | closed {chain} : closes i t = some chain → w.pending chain = some r → Change i t w r q .failed

theorem Change.terminal {r : Ref} {q : Request} {status : NeedStatus} (h : Change i t w r q status) :
    status ≠ .matched := by
  cases h with
  | expired => simp
  | settled _ _ hk =>
    rename_i a k ht ha
    cases k <;> cases hk <;> simp
  | adopted _ hd => exact hd
  | stage => simp
  | closed => simp

/-- A status after a segment is the status before it, or has a cause. -/
def Moves (i : Input) (t : Option Task) (w w' : World) : Prop :=
  ∀ r, ∀ q ∈ w.view r, ∃ q' ∈ w'.view r, q'.status = q.status ∨ Change i t w r q q'.status

theorem moves_of_view (h : ∀ r, ∀ q ∈ w.view r, ∃ q' ∈ w'.view r, q'.status = q.status) :
    Moves i t w w' := fun r q hq => (h r q hq).imp fun _ h => ⟨h.1, .inl h.2⟩

theorem Quiet.moves (h : Quiet w w') : Moves i t w w' := by
  intro r q hq
  rcases h.view r with hv | ⟨hl, q', hv, -, hs, hv'⟩
  · exact ⟨q, hv ▸ hq, .inl rfl⟩
  · cases hv.symm.trans hq
    exact ⟨_, hv', .inr (.expired hl hs)⟩

/-- Bookkeeping after a move. -/
theorem Quiet.after {u w₂ : World} (h' : Quiet w₂ w') (h : Moves i t w u)
    (hv : w₂.view = u.view) (hl : w₂.ledger = w.ledger) : Moves i t w w' := by
  intro r q hq
  obtain ⟨q₁, hq₁, hs⟩ := h r q hq
  rcases h'.view r with hv' | ⟨hnone, q₂, hv₂, -, hm, hv'⟩
  · exact ⟨q₁, by rwa [hv', hv], hs⟩
  · rw [hv] at hv₂
    cases hv₂.symm.trans hq₁
    refine ⟨_, hv', .inr ?_⟩
    rcases hs with hs | hs
    · exact .expired (hl ▸ hnone) (hs ▸ hm)
    · exact absurd hm hs.terminal

theorem view_same (h : w'.objs = w.objs) : ∀ r, ∀ q ∈ w.view r, ∃ q' ∈ w'.view r,
    q'.status = q.status :=
  fun r q hq => ⟨q, by rwa [World.view, h], rfl⟩

/-- A status that is set for a cause. -/
theorem moves_setStatus {r : Ref} {status : NeedStatus}
    (h : ∀ q ∈ w.view r, Change i t w r q status) : Moves i t w (w.setStatus r status) := by
  intro s q hq
  rw [view_setStatus]
  split
  · next hr =>
    subst hr
    exact ⟨{ q with status := status }, by rw [Option.mem_def.mp hq]; rfl, .inr (h q hq)⟩
  · exact ⟨q, hq, .inl rfl⟩

theorem view_closing (w : World) (chain : Ref) (status : ℕ) (now : Time) (r : Ref) :
    (w.closing chain status now).view r =
      if w.pending chain = some r then (w.view r).map fun q => { q with status := .failed }
      else w.view r := by
  unfold World.closing
  cases hp : w.pending chain with
  | none => rfl
  | some s =>
    simp only [view_setStatus, Option.some.injEq]
    rfl

theorem moves_closeChain {w₁ : World} {chain : Ref} (hc : closes i t = some chain)
    (hv : w₁.view = w.view) (hp : w₁.pending chain = w.pending chain) (hl : w₁.ledger = w.ledger)
    (status : ℕ) (now : Time) : Moves i t w (closeChain w₁ chain status now) := by
  refine (quiet_closeChain w₁ chain status now).after (u := w₁.closing chain status now)
    (fun r q hq => ?_) rfl ((closing_same w₁ chain status now).2.2.1.trans hl)
  rw [view_closing, hp, hv]
  split
  · next hp =>
    exact ⟨{ q with status := .failed }, by rw [Option.mem_def.mp hq]; rfl, .inr (.closed hc hp)⟩
  · exact ⟨q, hq, .inl rfl⟩

theorem view_mark (w : World) (q₀ : Request) : ∀ r, ∀ q ∈ w.view r,
    ∃ q' ∈ (w.markMatchedRequest q₀).view r, q'.status = q.status := by
  intro r q hq
  exact ⟨q, by rwa [view_markMatched, if_neg (view_lt hq).ne], rfl⟩

theorem status_progress (w : World) (r : Ref) (n : ℕ) (f : Frame) : ∀ s, ∀ q ∈ w.view s,
    ∃ q' ∈ (w.modify r (Request.progress n f)).view s, q'.status = q.status := by
  intro s q hq
  rw [view_progress]
  split
  · exact ⟨Request.progress n f q, by rw [Option.mem_def.mp hq]; rfl, rfl⟩
  · exact ⟨q, hq, rfl⟩

theorem pending_store (w : World) (chain j : Ref) (res : StageResult) (out : Output) :
    ((w.modifyChain chain (Chain.store j res)).emit out).pending chain = w.pending chain := by
  unfold World.pending
  simp only [World.modifyChain, World.emit, List.getElem?_modify_eq]
  cases w.chainObjs[chain]? <;> rfl

/-- STATUS: what a segment does to the status of a request. -/
theorem Segment.status {s : Step} (h : Segment o i t w s) : Moves i t w s.1 := by
  have hsame : Moves i t w w := moves_of_view (view_same rfl)
  cases h with
  | wait h => exact h.quiet.moves
  | @expired a r now k w' ht ha h =>
    exact h.after (moves_setStatus (r := r) fun _ _ => .settled ht ha rfl) rfl rfl
  | @adopted d q id r s ht hd h =>
    exact h.quiet.after (moves_setStatus (r := r) fun _ _ => .adopted ht hd) rfl rfl
  | remembered _ _ h₁ _ _ h₂ => exact h₂.after h₁.moves rfl h₁.ledger
  | @dispatched a k q tr w' _ _ _ _ _ h => exact h.after (moves_of_view (view_mark w q)) rfl rfl
  | @completedStage q s p f r chain w' hq hm hs _ _ _ _ h =>
    refine h.after (moves_setStatus (r := r) fun q hq' => ?_) rfl rfl
    cases hq.symm.trans hq'
    exact .stage (by rw [hs]; rfl) hm
  | @completedLegacyStage q s m r w' hq hm hs h =>
    refine h.after (moves_setStatus (r := r) fun q hq' => ?_) rfl rfl
    cases hq.symm.trans hq'
    exact .stage (by rw [hs]; rfl) hm
  | @completed a k p r k' w' ht ha hk h =>
    refine h.after (moves_setStatus (r := r) fun _ _ => .settled ht ha ?_) rfl rfl
    cases k <;> cases hk <;> rfl
  | delivered _ _ _ h => exact h.after hsame rfl rfl
  | entered _ h₁ _ _ _ _ _ _ h₂ _ => exact h₂.after h₁.moves rfl h₁.ledger
  | closed ht h =>
    exact h.after (moves_closeChain (by rw [ht]; rfl) rfl rfl rfl _ _) rfl (closeChain_ledger _ _ _ _)
  | @stageSent a c chain j ch provider now tr w₁ w' _ _ h₁ _ h₂ =>
    have hm := view_mark w₁ (stageRequest chain ch j provider now)
    refine h₂.after (u := w₁.markMatchedRequest (stageRequest chain ch j provider now))
      (fun r q hq => ?_) rfl h₁.ledger
    obtain ⟨q₁, hq₁, hs⟩ := h₁.moves (i := i) (t := t) r q hq
    obtain ⟨q₂, hq₂, hs'⟩ := hm r q₁ hq₁
    exact ⟨q₂, hq₂, hs'.symm ▸ hs⟩
  | @stored a p f r chain q s w₁ w' ts _ ht _ _ hw₁ h =>
    have hv : w₁.view = w.view := by rw [hw₁]; rfl
    have hl : w₁.ledger = w.ledger := by rw [hw₁]; rfl
    have hp : w₁.pending chain = w.pending chain := by rw [hw₁, pending_store]
    rcases h with ⟨status, now, h, -⟩ | ⟨h, -⟩
    · exact h.after (moves_closeChain (by rw [ht]; rfl) hv hp hl status now) rfl
        ((closeChain_ledger _ _ _ _).trans hl)
    · exact h.after hsame hv hl
  | @cancelled a m r w' ht ha h =>
    exact h.after (moves_setStatus (r := r) fun _ _ => .settled ht ha rfl) rfl rfl
  | @streamed a p f r n _ _ _ _ _ _ h =>
    exact h.after (moves_of_view (status_progress w r n f)) rfl rfl
  | @spilled a p f r n _ _ _ _ h => exact h.after (moves_of_view (status_progress w r n f)) rfl rfl
  | repeated _ _ _ h => exact h.after hsame rfl rfl
  | refused _ _ _ _ h => exact h.after hsame rfl rfl
  | refusedByLedger _ _ h => exact h.after hsame rfl rfl
  | executed _ _ => exact moves_of_view (view_same rfl)
  | dropped _ _ _ => exact hsame
  | read _ _ => exact hsame
  | peer _ => exact moves_of_view (view_same rfl)
  | timeout ht hi _ => exact moves_closeChain (by rw [ht, hi]; rfl) rfl rfl rfl _ _

end Truyn.Relay
