import Truyn.Relay.Machine

/-! relay:quiet | what the bookkeeping of the relay leaves alone

    Sockets, polls, queues, reservations, counters, prunings, refusals and, without a ledger, expiry
    checks are in every segment and in no argument. `Quiet w w'` says that `w'` is `w` but for these;
    the rest of a segment is then one write, and `view` is what a request object says without the
    fields that only answers read. -/

namespace Truyn.Relay
open Ledger (NeedStatus Time sequenceMismatch)

/-- A request without the fields that only answers read. -/
def Request.core (q : Request) : Request :=
  { q with
    lastPartialTransport := none, lastPartialAt := none, terminalReserved := false
    completedAt := none, cancelledAt := none, failedAt := none, failureReason := none
    result := none }

/-- What a request object says. -/
def World.view (w : World) (r : Ref) : Option Request := (w.objs[r]?).map Request.core

/-- Change the status of a request object, and nothing else. -/
def World.setStatus (w : World) (r : Ref) (status : NeedStatus) : World :=
  w.modify r fun q => { q with status := status }

/-- An output that no argument is about. -/
def Output.minor : Output → Bool
  | .sent _ (.REVOKE _) _ => true
  | .answered (.fastPartial _ _) (some _) status error =>
    ¬(status = 200 ∧ error = none) ∧ ¬(status = 409 ∧ error = some sequenceMismatch)
  | .answered _ _ _ _ => true
  | .chainResult _ _ => true
  | _ => false

/-- `w'` is `w` but for bookkeeping. -/
structure Quiet (w w' : World) : Prop where
  ledger : w'.ledger = w.ledger
  seen : w'.seenNeedIds = w.seenNeedIds
  chainObjs : w'.chainObjs = w.chainObjs
  size : w'.objs.length = w.objs.length
  view : ∀ r, w'.view r = w.view r ∨ (w.ledger = none ∧ ∃ q, w.view r = some q ∧ q.mode = .fast ∧
    q.status = .matched ∧ w'.view r = some { q with status := .failed })
  requests : w'.requests.Sublist w.requests
  found : ∀ id r, w.request id = some r → w'.request id = some r ∨ w'.requestTerminal r
  chains : w'.chains.Sublist w.chains
  foundChain : ∀ id c, lookup w.chains id = some c → lookup w'.chains id = some c ∨
    w'.chainTerminal c
  log : ∃ l, w'.log = l ++ w.log ∧ ∀ out ∈ l, out.minor

/-! ### Views -/

theorem view_modify (w : World) (r s : Ref) (f : Request → Request) :
    (w.modify r f).view s =
      if r = s then (w.objs[s]?).map fun q => (f q).core else w.view s := by
  simp only [World.view, World.modify, List.getElem?_modify]
  split
  · simp [Function.comp_def]
  · simp

theorem view_setStatus (w : World) (r s : Ref) (status : NeedStatus) :
    (w.setStatus r status).view s =
      if r = s then (w.view s).map fun q => { q with status := status } else w.view s := by
  rw [World.setStatus, view_modify]
  split
  · simp only [World.view, Option.map_map]; rfl
  · rfl

variable {w w' : World} {r : Ref}

theorem view_isSome : (w.view r).isSome ↔ r < w.objs.length := by
  simp [World.view]

theorem requestTerminal_eq (w : World) (r : Ref) :
    w.requestTerminal r = (w.view r).any fun q => q.status ≠ .matched := by
  simp only [World.requestTerminal, World.view, Option.any_map]
  rfl

/-- What the object itself says, its view says. -/
theorem view_of_get {q : Request} (h : w.objs[r]? = some q) :
    w.view r = some q.core := by
  rw [World.view, h]; rfl

/-! ### Composing -/

theorem Quiet.refl (w : World) : Quiet w w :=
  ⟨rfl, rfl, rfl, rfl, fun _ => .inl rfl, List.Sublist.refl _, fun _ _ h => .inl h,
    List.Sublist.refl _, fun _ _ h => .inl h, [], rfl, fun _ h => absurd h List.not_mem_nil⟩

theorem Quiet.terminal (h : Quiet w w') (hr : w.requestTerminal r) :
    w'.requestTerminal r := by
  rw [requestTerminal_eq] at hr ⊢
  rcases h.view r with hv | ⟨-, q, hv, -, hm, -⟩
  · rwa [hv]
  · simp [hv, hm] at hr

theorem Quiet.trans {u v : World} (h : Quiet u v) (h' : Quiet v w) : Quiet u w where
  ledger := h'.ledger.trans h.ledger
  seen := h'.seen.trans h.seen
  chainObjs := h'.chainObjs.trans h.chainObjs
  size := h'.size.trans h.size
  view r := by
    rcases h'.view r with h₂ | ⟨hl, q, hv, hm, hs, hw⟩
    · rw [h₂]; exact h.view r
    · rcases h.view r with h₁ | ⟨-, q', -, -, -, hv'⟩
      · exact .inr ⟨h.ledger ▸ hl, q, h₁ ▸ hv, hm, hs, hw⟩
      · rw [hv'] at hv
        cases hv
        cases hs
  requests := h'.requests.trans h.requests
  found id r hr := by
    rcases h.found id r hr with h₁ | h₁
    · exact h'.found id r h₁
    · exact .inr (h'.terminal h₁)
  chains := h'.chains.trans h.chains
  foundChain id c hc := by
    rcases h.foundChain id c hc with h₁ | h₁
    · exact h'.foundChain id c h₁
    · right
      rw [World.chainTerminal] at h₁ ⊢
      rwa [h'.chainObjs]
  log := by
    obtain ⟨l, hl, hm⟩ := h.log
    obtain ⟨l', hl', hm'⟩ := h'.log
    refine ⟨l' ++ l, by rw [hl', hl, List.append_assoc], ?_⟩
    intro out hout
    rcases List.mem_append.mp hout with hout | hout
    · exact hm' out hout
    · exact hm out hout

/-- What is the same before an output is the same after it. -/
theorem Quiet.emit (h : Quiet w w') (hl : w'.log = w.log) (out : Output) :
    Quiet (w.emit out) (w'.emit out) :=
  { h with
    log := ⟨[], by rw [World.emit, World.emit, hl]; rfl, fun _ h => absurd h List.not_mem_nil⟩ }

/-! ### Bookkeeping is quiet -/

/-- Only fields that `Quiet` does not look at have changed. -/
structure Aside (w w' : World) : Prop where
  ledger : w'.ledger = w.ledger
  seen : w'.seenNeedIds = w.seenNeedIds
  chainObjs : w'.chainObjs = w.chainObjs
  objs : w'.objs = w.objs
  requests : w'.requests = w.requests
  chains : w'.chains = w.chains
  log : w'.log = w.log

theorem Aside.refl (w : World) : Aside w w := ⟨rfl, rfl, rfl, rfl, rfl, rfl, rfl⟩

theorem Aside.quiet (h : Aside w w') : Quiet w w' where
  __ := h
  size := by rw [h.objs]
  view r := .inl (by rw [World.view, h.objs, World.view])
  requests := by rw [h.requests]
  found id r hr := .inl (by rwa [World.request, h.requests])
  chains := by rw [h.chains]
  foundChain id c hc := .inl (by rwa [h.chains])
  log := ⟨[], by rw [h.log]; rfl, fun _ h => absurd h List.not_mem_nil⟩

theorem Aside.modify (h : Aside w w') (r : Ref) (f : Request → Request) :
    Aside (w.modify r f) (w'.modify r f) :=
  { h with objs := by rw [World.modify, World.modify, h.objs] }

theorem Aside.trans {u v : World} (h : Aside u v) (h' : Aside v w) : Aside u w :=
  ⟨h'.ledger.trans h.ledger, h'.seen.trans h.seen, h'.chainObjs.trans h.chainObjs,
    h'.objs.trans h.objs, h'.requests.trans h.requests, h'.chains.trans h.chains,
    h'.log.trans h.log⟩

theorem aside_set (w : World) {f : Id → ℕ} {es fs ts : Id → List Event} {fw lw rw : Id → Bool}
    {sr : Id → ℕ} {st : Id → ℕ} {t : Time} : Aside w { w with
      inFlightByProvider := f, fastTerminalReservations := sr, events := es, fastEvents := fs
      fastTerminalEvents := ts, fastWaiters := fw, legacyWaiters := lw, resultWaiters := rw
      successfulTasks := st, lastExpirySweepAt := t } :=
  ⟨rfl, rfl, rfl, rfl, rfl, rfl, rfl⟩

theorem quiet_emit (w : World) {out : Output} (h : out.minor) : Quiet w (w.emit out) :=
  { Quiet.refl w with
    log := ⟨[out], rfl, fun o ho => by rwa [List.mem_singleton.mp ho]⟩ }

/-- Changing fields that only answers read. -/
theorem quiet_modify (w : World) (r : Ref) {f g : Request → Request}
    (h : ∀ q, (g q).core = (f q).core) : Quiet (w.modify r f) (w.modify r g) := by
  have hview : ∀ s, (w.modify r g).view s = (w.modify r f).view s := fun s => by
    rw [view_modify, view_modify]
    simp only [h]
  refine { Quiet.refl (w.modify r f) with
    ledger := rfl, seen := rfl, chainObjs := rfl, size := ?_, view := fun s => .inl (hview s)
    requests := List.Sublist.refl _, found := fun _ _ h => .inl h
    chains := List.Sublist.refl _, foundChain := fun _ _ h => .inl h }
  simp [World.modify]

theorem quiet_modify_self (w : World) (r : Ref) {f : Request → Request}
    (h : ∀ q, (f q).core = q.core) : Quiet w (w.modify r f) := by
  have := quiet_modify w r (f := id) h
  rwa [World.modify, show w.objs.modify r id = w.objs from List.modify_id _ _] at this

theorem quiet_unreserve (w : World) (nodeId : Id) : Quiet w (w.unreserveFastTerminal nodeId) :=
  (aside_set w).quiet

theorem quiet_release (w : World) (r : Ref) : Quiet w (w.releaseFastTerminal r) := by
  unfold World.releaseFastTerminal
  split
  · exact .refl w
  · split
    · refine (quiet_modify_self w r ?_).trans (quiet_unreserve _ _)
      exact fun _ => rfl
    · exact .refl w

theorem release_log (w : World) (r : Ref) : (w.releaseFastTerminal r).log = w.log := by
  unfold World.releaseFastTerminal
  split
  · rfl
  · split <;> rfl

theorem aside_finish (w : World) (id : Id) : Aside w (w.finishResultWaiter id).1 := by
  unfold World.finishResultWaiter
  split
  · exact aside_set w
  · exact .refl w

theorem quiet_finish (w : World) (id : Id) : Quiet w (w.finishResultWaiter id).1 :=
  (aside_finish w id).quiet

/-- `markRequestStatus` sets the status and counts. -/
theorem quiet_mark (w : World) (r : Ref) (status : NeedStatus) :
    Quiet (w.setStatus r status) (w.markRequestStatus r status) := by
  unfold World.markRequestStatus
  split
  · next h =>
    have : w.setStatus r status = w := by
      rw [World.setStatus, World.modify, List.modify_eq_self (by simpa using h)]
    rw [this]
    exact .refl w
  · split
    · exact (aside_set _).quiet
    · exact .refl _

theorem mark_log (w : World) (r : Ref) (status : NeedStatus) :
    (w.markRequestStatus r status).log = w.log := by
  unfold World.markRequestStatus
  split
  · rfl
  · split <;> rfl

/-! ### Deliveries -/

/-- `queueFast` hands the event over, or finds no room. -/
theorem queueFast_cases (o : Options) (e : Env o) (w : World) (n : Id) (ev : Event) (b : Bool) :
    ((w.queueFast o e n ev b).2 = .full ∧ b ∧ (w.queueFast o e n ev b).1 = w) ∨
      ((w.queueFast o e n ev b).2 ≠ .full ∧
        Aside (w.emit (.sent n ev (w.queueFast o e n ev b).2)) (w.queueFast o e n ev b).1) := by
  unfold World.queueFast
  split
  · exact .inr ⟨by simp, .refl _⟩
  next h₁ =>
  split
  · next h₂ => exact .inl ⟨rfl, by simpa [h₂] using h₁, rfl⟩
  split
  · exact .inr ⟨by simp, aside_set (w.emit _)⟩
  split
  · next h₂ => exact .inl ⟨rfl, h₂.1, rfl⟩
  · exact .inr ⟨by simp, aside_set (w.emit _)⟩

/-- `queueFastTerminal` hands the event over, or finds no room. -/
theorem queueFastTerminal_cases (o : Options) (e : Env o) (w : World) (n : Id) (ev : Event) :
    ((w.queueFastTerminal o e n ev).2 = .full ∧ (w.queueFastTerminal o e n ev).1 = w) ∨
      Quiet (w.emit (.sent n ev (w.queueFastTerminal o e n ev).2))
        (w.queueFastTerminal o e n ev).1 := by
  unfold World.queueFastTerminal
  split
  · exact .inr (.refl _)
  split
  · exact .inr (aside_set (w.emit _)).quiet
  split
  · exact .inl ⟨rfl, rfl⟩
  · exact .inr (aside_set (w.emit _)).quiet

/-- `queue` always hands the event over. -/
theorem quiet_queue (o : Options) (e : Env o) (w : World) (n : Id) (ev : Event) :
    ∃ tr, Quiet (w.emit (.sent n ev tr)) (w.queue o e n ev) := by
  unfold World.queue
  split
  · exact ⟨_, .refl _⟩
  split
  · exact ⟨_, (aside_set (w.emit _)).quiet⟩
  · exact ⟨_, (aside_set (w.emit _)).quiet⟩

theorem quiet_queueCritical (o : Options) (e : Env o) (w : World) (n id : Id) :
    Quiet w (w.queueCritical o e n (.REVOKE id)).1 := by
  have hsent : ∀ tr, Quiet w (w.emit (.sent n (.REVOKE id) tr)) := fun tr => quiet_emit w rfl
  unfold World.queueCritical
  split
  · exact hsent _
  split
  · exact .refl w
  split
  · exact (hsent _).trans (aside_set (w.emit _)).quiet
  split
  · exact .refl w
  · exact (hsent _).trans (aside_set (w.emit _)).quiet

theorem quiet_queueCancellation (o : Options) (e : Env o) (w : World) (q : Request) (id : Id) :
    Quiet w (w.queueCancellation o e q (.REVOKE id)).1 := by
  unfold World.queueCancellation
  split
  · rcases queueFast_cases o e w q.provider (.REVOKE id) true with ⟨-, -, h⟩ | ⟨-, h⟩
    · rw [h]; exact .refl w
    · exact (quiet_emit w rfl).trans h.quiet
  · exact quiet_queueCritical o e w q.provider id

/-! ### Prunings -/

theorem pruneLoop_sublist (terminal : Ref → Bool) (n : ℕ) : ∀ rest kept : List (Id × Ref),
    (pruneLoop terminal n kept rest).Sublist (kept ++ rest)
  | [], kept => by simp [pruneLoop]
  | p :: rest, kept => by
    have hs : ((if terminal p.2 then kept else kept ++ [p]) ++ rest).Sublist (kept ++ p :: rest) := by
      split
      · exact (List.sublist_cons_self p rest).append_left kept
      · simp
    simp only [pruneLoop]
    generalize (if terminal p.2 then kept else kept ++ [p]) = kept' at hs ⊢
    split
    · exact hs
    · exact (pruneLoop_sublist terminal n rest _).trans hs

theorem lookup_append (l m : List (Id × Ref)) (id : Id) :
    lookup (l ++ m) id = (lookup l id).or (lookup m id) := by
  simp only [lookup, List.find?_append, Option.map_or]

theorem lookup_cons (p : Id × Ref) (l : List (Id × Ref)) (id : Id) :
    lookup (p :: l) id = if p.1 = id then some p.2 else lookup l id := by
  rw [lookup, List.find?_cons]
  by_cases h : p.1 = id <;> simp [h, lookup]

/-- What `pruneLoop` forgets is terminal. -/
theorem pruneLoop_found (terminal : Ref → Bool) (n : ℕ) {id : Id} :
    ∀ rest kept : List (Id × Ref), lookup (kept ++ rest) id = some r →
      lookup (pruneLoop terminal n kept rest) id = some r ∨ terminal r
  | [], kept, h => by
    rw [List.append_nil] at h
    exact .inl h
  | p :: rest, kept, h => by
    have hs : lookup ((if terminal p.2 then kept else kept ++ [p]) ++ rest) id = some r ∨
        terminal r := by
      split
      · next ht =>
        rw [lookup_append, lookup_cons] at h
        rw [lookup_append]
        cases hk : lookup kept id with
        | some s =>
          rw [hk] at h
          exact .inl h
        | none =>
          rw [hk, Option.none_or] at h
          split at h
          · exact .inr (Option.some.inj h ▸ ht)
          · exact .inl h
      · exact .inl (by simpa using h)
    simp only [pruneLoop]
    generalize (if terminal p.2 then kept else kept ++ [p]) = kept' at hs ⊢
    rcases hs with hs | hs
    · split
      · exact .inl hs
      · exact pruneLoop_found terminal n rest _ hs
    · exact .inr hs

theorem pruneCompleted_sublist (terminal : Ref → Bool) (n : ℕ) (m : List (Id × Ref)) :
    (pruneCompleted terminal n m).1.Sublist m := by
  unfold pruneCompleted
  split
  · exact List.Sublist.refl m
  · exact pruneLoop_sublist terminal n m []

theorem pruneCompleted_found (terminal : Ref → Bool) (n : ℕ) {m : List (Id × Ref)} {id : Id}
    (h : lookup m id = some r) :
    lookup (pruneCompleted terminal n m).1 id = some r ∨ terminal r := by
  unfold pruneCompleted
  split
  · exact .inl h
  · exact pruneLoop_found terminal n m [] h

theorem quiet_pruneRequests (o : Options) (w : World) : Quiet w (pruneRequests o w).1 :=
  { Quiet.refl w with
    requests := pruneCompleted_sublist _ _ _
    found := fun _ _ h => pruneCompleted_found _ _ h }

theorem quiet_pruneChains (o : Options) (w : World) : Quiet w (pruneChains o w).1 :=
  { Quiet.refl w with
    chains := pruneCompleted_sublist _ _ _
    foundChain := fun _ _ h => pruneCompleted_found _ _ h }

/-! ### Expiry -/

/-- The writes of an expiry are a status and bookkeeping. -/
theorem quiet_failExpired (w : World) (r : Ref) (now : Time) :
    Quiet (w.setStatus r .failed) (failExpired w r now) := by
  unfold failExpired
  split
  · next h =>
    have : w.setStatus r .failed = w := by
      rw [World.setStatus, World.modify, List.modify_eq_self (by simpa using h)]
    rw [this]
    exact .refl w
  · refine (quiet_mark w r .failed).trans ((quiet_modify_self _ r ?_).trans
      ((quiet_release _ r).trans (quiet_finish _ _)))
    exact fun _ => rfl

/-- Without a ledger an expiry is bookkeeping. -/
theorem quiet_expired {q : Request} (now : Time) (hl : w.ledger = none) (hq : w.objs[r]? = some q)
    (hm : q.mode = .fast) (hs : q.status = .matched) :
    Quiet w (failExpired w r now) := by
  refine Quiet.trans ?_ (quiet_failExpired w r now)
  refine { Quiet.refl w with
    size := by simp [World.setStatus, World.modify], view := fun s => ?_
    found := fun _ _ h => .inl h, foundChain := fun _ _ h => .inl h }
  rw [view_setStatus]
  by_cases hrs : r = s
  · subst hrs
    rw [if_pos rfl, view_of_get hq]
    exact .inr ⟨hl, q.core, rfl, hm, hs, rfl⟩
  · rw [if_neg hrs]
    exact .inl rfl

/-! ### Closing a chain -/

/-- A chain as it is closed. -/
def Chain.close (status : ℕ) (now : Time) (c : Chain) : Chain :=
  { c with
    status := if status = 200 then .completed else .failed
    completedAt := some now }

/-- The request that closing a chain fails: the matched one under the id of the current stage. -/
def World.pending (w : World) (chain : Ref) : Option Ref :=
  ((w.chainObjs[chain]?).bind fun c =>
    c.currentStage.bind fun i => w.request (compactStageRequestId c.chainId i)).filter
      fun r => !w.requestTerminal r

/-- The world after a chain and its pending request are closed. -/
def World.closing (w : World) (chain : Ref) (status : ℕ) (now : Time) : World :=
  match w.pending chain with
  | none => w.modifyChain chain (Chain.close status now)
  | some r => (w.modifyChain chain (Chain.close status now)).setStatus r .failed

theorem modifyChain_none {chain : Ref} (h : w.chainObjs[chain]? = none) (f : Chain → Chain) :
    w.modifyChain chain f = w := by
  rw [World.modifyChain, List.modify_eq_self (by simpa using h)]

theorem closeChain_eq {chain : Ref} {c : Chain} (hc : w.chainObjs[chain]? = some c) (status : ℕ)
    (now : Time) : closeChain w chain status now =
      (match c.currentStage.bind fun i => w.request (compactStageRequestId c.chainId i) with
      | none => w.modifyChain chain (Chain.close status now)
      | some r =>
        if w.requestTerminal r then w.modifyChain chain (Chain.close status now)
        else (w.modifyChain chain (Chain.close status now)).markRequestStatus r .failed).emit
          (.chainResult chain status) := by
  unfold closeChain
  rw [hc]
  rfl

theorem quiet_closeChain (w : World) (chain : Ref) (status : ℕ) (now : Time) :
    Quiet (w.closing chain status now) (closeChain w chain status now) := by
  cases hc : w.chainObjs[chain]? with
  | none =>
    rw [World.closing, World.pending, closeChain, hc]
    simp only [Option.bind_none, Option.filter_none, modifyChain_none hc]
    exact .refl w
  | some c =>
    rw [World.closing, World.pending, closeChain_eq hc, hc, Option.bind_some]
    cases c.currentStage.bind fun i => w.request (compactStageRequestId c.chainId i) with
    | none => exact quiet_emit _ rfl
    | some r =>
      cases ht : w.requestTerminal r with
      | true =>
        simp only [Option.filter_some, ht, Bool.not_true, if_true]
        exact quiet_emit _ rfl
      | false =>
        simp only [Option.filter_some, ht, Bool.not_false, if_true]
        exact (quiet_mark _ r .failed).trans (quiet_emit _ rfl)

end Truyn.Relay
