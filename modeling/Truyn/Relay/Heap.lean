import Truyn.Relay.Inversion

/-! relay:heap | what every run keeps

    No segment renames an object, moves it to other parties, or takes the ledger away; maps name the
    objects they hold; suspended tasks fit the heap; and the ledger only ever gains versions that
    the abstract ledger allows. -/

namespace Truyn.Relay
open Async Cas
open Ledger (Fault NeedStatus Time Record History Answer Awaited Book Call execute hostFault
  versions)

variable {o : Options} {i : Input} {t : Option Task} {w w' : World}

/-! ### Writes -/

theorem Keeps.refl (w : World) : Keeps w w :=
  ⟨fun _ q hq => ⟨q, hq, rfl, rfl, rfl, rfl, rfl⟩, le_refl _, rfl⟩

theorem Keeps.trans {u v w : World} (h : Keeps u v) (h' : Keeps v w) : Keeps u w where
  object r q hq := by
    obtain ⟨q₁, hq₁, h₁, h₂, h₃, h₄, h₅⟩ := h.object r q hq
    obtain ⟨q₂, hq₂, h₁', h₂', h₃', h₄', h₅'⟩ := h'.object r q₁ hq₁
    exact ⟨q₂, hq₂, h₁'.trans h₁, h₂'.trans h₂, h₃'.trans h₃, h₄'.trans h₄, h₅'.trans h₅⟩
  size := h.size.trans h'.size
  ledger := h'.ledger.trans h.ledger

/-- No new request objects and no new names. -/
structure Steady (w w' : World) : Prop extends Keeps w w' where
  objs : w'.objs.length = w.objs.length
  requests : ∀ p ∈ w'.requests, p ∈ w.requests

theorem Steady.refl (w : World) : Steady w w := ⟨.refl w, rfl, fun _ h => h⟩

theorem Steady.trans {u v w : World} (h : Steady u v) (h' : Steady v w) : Steady u w :=
  ⟨h.toKeeps.trans h'.toKeeps, h'.objs.trans h.objs, fun p hp => h.requests p (h'.requests p hp)⟩

theorem Quiet.steady (h : Quiet w w') : Steady w w' :=
  ⟨h.keeps, h.size, fun _ hp => h.requests.subset hp⟩

theorem view_progress (w : World) (r s : Ref) (n : ℕ) (f : Frame) :
    (w.modify r (Request.progress n f)).view s =
      if r = s then (w.view s).map (Request.progress n f) else w.view s := by
  rw [view_modify]
  split
  · simp only [World.view, Option.map_map]; rfl
  · rfl

/-- A write to one object that leaves its names alone. -/
theorem steady_modify (w : World) (r : Ref) (f : Request → Request)
    (h : ∀ q, (f q).needId = q.needId ∧ (f q).requester = q.requester ∧
      (f q).provider = q.provider ∧ (f q).mode = q.mode ∧ (f q).stage = q.stage) :
    Steady w (w.modify r f) where
  object s q hq := by
    rw [view_modify]
    split
    · obtain ⟨q₀, hq₀, rfl⟩ := Option.map_eq_some_iff.mp hq
      exact ⟨(f q₀).core, by rw [hq₀]; rfl, h q₀⟩
    · exact ⟨q, hq, rfl, rfl, rfl, rfl, rfl⟩
  size := le_refl _
  ledger := rfl
  objs := by simp [World.modify]
  requests _ hp := hp

theorem steady_setStatus (w : World) (r : Ref) (status : NeedStatus) :
    Steady w (w.setStatus r status) :=
  steady_modify w r _ fun _ => ⟨rfl, rfl, rfl, rfl, rfl⟩

theorem steady_progress (w : World) (r : Ref) (n : ℕ) (f : Frame) :
    Steady w (w.modify r (Request.progress n f)) :=
  steady_modify w r _ fun _ => ⟨rfl, rfl, rfl, rfl, rfl⟩

/-- A write that does not touch the request objects. -/
theorem steady_of_eq (ho : w'.objs = w.objs) (hr : w'.requests = w.requests)
    (hc : w.chainObjs.length ≤ w'.chainObjs.length) (hl : w'.ledger.isSome = w.ledger.isSome) :
    Steady w w' where
  object r q hq := ⟨q, by rwa [World.view, ho], rfl, rfl, rfl, rfl, rfl⟩
  size := hc
  ledger := hl
  objs := by rw [ho]
  requests p hp := hr ▸ hp

theorem steady_modifyChain (w : World) (chain : Ref) (f : Chain → Chain) :
    Steady w (w.modifyChain chain f) :=
  steady_of_eq rfl rfl (by simp [World.modifyChain]) rfl

theorem steady_emit (w : World) (out : Output) : Steady w (w.emit out) :=
  steady_of_eq rfl rfl (le_refl _) rfl

theorem steady_remember (w : World) (id : Id) : Steady w (w.remember id) :=
  steady_of_eq rfl rfl (le_refl _) rfl

theorem steady_enter (w : World) (ch : Chain) : Steady w (w.enter ch) :=
  steady_of_eq rfl rfl (by simp [World.enter]) rfl

theorem steady_closeChain (w : World) (chain : Ref) (status : ℕ) (now : Time) :
    Steady w (closeChain w chain status now) := by
  refine Steady.trans ?_ (quiet_closeChain w chain status now).steady
  unfold World.closing
  split
  · exact steady_modifyChain w chain _
  · exact (steady_modifyChain w chain _).trans (steady_setStatus _ _ _)

theorem view_markMatched (w : World) (q : Request) (r : Ref) :
    (w.markMatchedRequest q).view r = if r = w.objs.length then some q.core else w.view r := by
  simp only [World.view, World.markMatchedRequest]
  rcases lt_trichotomy r w.objs.length with h | h | h
  · rw [List.getElem?_append_left h, if_neg h.ne]
  · rw [if_pos h, h, List.getElem?_concat_length]; rfl
  · rw [if_neg h.ne', List.getElem?_eq_none (by simpa using Nat.succ_le_of_lt h),
      List.getElem?_eq_none h.le]

theorem view_lt {r : Ref} {q : Request} (h : w.view r = some q) : r < w.objs.length :=
  view_isSome.mp (by rw [h]; rfl)

theorem keeps_markMatched (w : World) (q : Request) : Keeps w (w.markMatchedRequest q) where
  object r q' hq := by
    rw [view_markMatched, if_neg (view_lt hq).ne]
    exact ⟨q', hq, rfl, rfl, rfl, rfl, rfl⟩
  size := le_refl _
  ledger := rfl

theorem steady_exec (w : World) (c : Call) (about : Id) (now : Time) :
    Steady w (execCall w c about now).1 :=
  steady_of_eq rfl rfl (le_refl _) (Ledger.execute_isSome _ _ _ _)

/-! ### Segments keep the heap -/

/-- The objects that segments create. -/
def Request.made (q : Request) : Prop :=
  q.direct ∨ ∃ chain ch j provider now, q = stageRequest chain ch j provider now

/-- `q` is the one request object that `w'` has and `w` has not. -/
def Makes (w w' : World) (q : Request) : Prop :=
  ∃ w₁ w₂, Quiet w w₁ ∧ Steady (w₁.markMatchedRequest q) w₂ ∧ w₂.objs = w₁.objs ++ [q] ∧
    w₂.ledger = w.ledger ∧ Quiet w₂ w'

variable {s : Step} {a : Awaited} {k : Cont}

/-- A segment creates no request, or one. -/
theorem Segment.steady (h : Segment o i t w s) :
    Steady w s.1 ∨ ∃ q : Request, q.made ∧ Makes w s.1 q := by
  cases h with
  | wait h => exact .inl h.quiet.steady
  | expired _ _ h => exact .inl ((steady_setStatus _ _ _).trans h.steady)
  | adopted _ _ h => exact .inl ((steady_setStatus _ _ _).trans h.quiet.steady)
  | remembered _ _ h₁ _ _ h₂ =>
    exact .inl (h₁.steady.trans ((steady_remember _ _).trans h₂.steady))
  | dispatched _ _ _ _ hd h =>
    exact .inr ⟨_, .inl hd, w, _, .refl w, steady_emit _ _, rfl, rfl, h⟩
  | completedStage _ _ _ _ _ _ _ h | completedLegacyStage _ _ _ h | completed _ _ _ h =>
    exact .inl ((steady_setStatus _ _ _).trans ((steady_emit _ _).trans h.steady))
  | entered _ h₁ _ _ _ _ _ _ h₂ _ =>
    exact .inl (h₁.steady.trans ((steady_enter _ _).trans h₂.steady))
  | closed _ h => exact .inl ((steady_closeChain _ _ _ _).trans h.steady)
  | stageSent _ _ h₁ _ h₂ =>
    exact .inr ⟨_, .inr ⟨_, _, _, _, _, rfl⟩, _, _, h₁, (steady_modifyChain _ _ _).trans
      (steady_emit _ _), rfl, h₁.ledger, h₂⟩
  | stored _ _ _ _ hw₁ h =>
    subst hw₁
    have hstore := fun chain f out => (steady_modifyChain w chain f).trans (steady_emit _ out)
    rcases h with ⟨status, now, h, -⟩ | ⟨h, -⟩
    · exact .inl ((hstore _ _ _).trans ((steady_closeChain _ _ _ _).trans h.steady))
    · exact .inl ((hstore _ _ _).trans h.steady)
  | cancelled _ _ h => exact .inl ((steady_setStatus _ _ _).trans h.steady)
  | streamed _ _ _ h =>
    exact .inl ((steady_emit _ _).trans ((steady_progress _ _ _ _).trans
      ((steady_emit _ _).trans h.steady)))
  | spilled _ _ _ h =>
    exact .inl ((steady_progress _ _ _ _).trans ((steady_emit _ _).trans h.steady))
  | delivered _ _ _ h | repeated _ _ _ h | refused _ _ _ _ h | refusedByLedger _ _ h =>
    exact .inl ((steady_emit _ _).trans h.steady)
  | executed _ _ | peer _ => exact .inl (steady_exec _ _ _ _)
  | dropped _ _ _ | read _ _ => exact .inl (.refl w)
  | timeout _ _ _ => exact .inl (steady_closeChain _ _ _ _)

/-- An object that was not there before is as it was made, or expired at once. -/
theorem Segment.created (h : Segment o i t w s) {r : Ref} {q' : Request} (hr : w.view r = none)
    (hq' : s.1.view r = some q') : ∃ q : Request, q.made ∧
      (q' = q.core ∨ (w.ledger = none ∧ q' = { q.core with status := .failed })) := by
  have hlen : w.objs.length ≤ r := by
    by_contra hlt
    have := view_isSome.mpr (Nat.lt_of_not_le hlt)
    rw [hr] at this
    cases this
  rcases h.steady with h | ⟨q, hm, w₁, w₂, h₁, -, hobjs, hl, h₂⟩
  · exact absurd (h.objs ▸ view_lt hq') (Nat.not_lt.mpr hlen)
  · have hlt := view_lt hq'
    rw [h₂.size, hobjs, List.length_append, List.length_singleton, h₁.size] at hlt
    obtain rfl : r = w₁.objs.length := by
      rw [h₁.size]
      exact Nat.le_antisymm (Nat.lt_succ_iff.mp hlt) hlen
    have hv : w₂.view w₁.objs.length = some q.core := by
      rw [World.view, hobjs, List.getElem?_concat_length]; rfl
    refine ⟨q, hm, ?_⟩
    rcases h₂.view w₁.objs.length with hv' | ⟨hnone, q₁, hv₁, -, -, hv'⟩
    · exact .inl (Option.some.inj (hq'.symm.trans (hv'.trans hv)))
    · cases hv₁.symm.trans hv
      exact .inr ⟨hl ▸ hnone, Option.some.inj (hq'.symm.trans hv')⟩

theorem Segment.keeps (h : Segment o i t w s) : Keeps w s.1 := by
  rcases h.steady with h | ⟨q, -, w₁, w₂, h₁, h₂, -, -, h₃⟩
  · exact h.toKeeps
  · exact h₁.keeps.trans ((keeps_markMatched w₁ q).trans (h₂.toKeeps.trans h₃.keeps))

theorem Steady.wf (h : Steady w w') (hw : Wf w) : Wf w' where
  named p hp := by
    obtain ⟨q, hq, hid⟩ := hw.named p (h.requests p hp)
    obtain ⟨q', hq', hid', -⟩ := h.object p.2 q hq
    exact ⟨q', hq', hid'.trans hid⟩
  stage r q' hq' := by
    have hr : r < w.objs.length := h.objs ▸ view_lt hq'
    obtain ⟨q, hq⟩ := Option.isSome_iff_exists.mp (view_isSome.mpr hr)
    obtain ⟨q'', hq'', -, -, -, hm, hs⟩ := h.object r q hq
    cases hq''.symm.trans hq'
    rw [hm, hs]
    exact hw.stage r q hq

theorem wf_markMatched (hw : Wf w) {q : Request} (hq : q.made) : Wf (w.markMatchedRequest q) where
  named p hp := by
    rcases List.mem_append.mp hp with hp | hp
    · obtain ⟨q', hq', hid⟩ := hw.named p hp
      exact ⟨q', by rwa [view_markMatched, if_neg (view_lt hq').ne], hid⟩
    · obtain rfl := List.mem_singleton.mp hp
      exact ⟨q.core, by rw [view_markMatched, if_pos rfl]; rfl, rfl⟩
  stage r q' hq' := by
    rw [view_markMatched] at hq'
    split at hq'
    · cases hq'
      rcases hq with ⟨_, _, _, _, _, mode, hm, rfl⟩ | ⟨_, _, _, _, _, rfl⟩
      · simpa [Request.core, newRequest] using hm
      · simp [Request.core, newRequest, stageRequest]
    · exact hw.stage r q' hq'

theorem Segment.wf (hw : Wf w) (h : Segment o i t w s) : Wf s.1 := by
  rcases h.steady with h | ⟨q, hq, w₁, w₂, h₁, h₂, -, -, h₃⟩
  · exact h.wf hw
  · exact h₃.steady.wf (h₂.wf (wf_markMatched (h₁.steady.wf hw) hq))

theorem Fits.shape (h : Fits o w (.resume a k)) : Shape o w k := by
  cases a with
  | nothing => exact h.1
  | record r => exact h.2.1
  | answer r => exact h.2
  | fault f => exact h.2

theorem fits_turn (hs : Shape o w k) (hk : k.asks → w.ledger = none) (hx : k.expires = false) :
    ∀ x ∈ [Task.resume .nothing k], Fits o w x := by
  intro x hx'
  obtain rfl := List.mem_singleton.mp hx'
  exact ⟨hs, hk, hx⟩

theorem fits_replied (hl : w.ledger.isSome) (hs : Shape o w k)
    (ha : (∃ f, a = .fault f) ∨ ∃ b, a = .answer b) : Fits o w (.resume a k) := by
  rcases ha with ⟨f, rfl⟩ | ⟨b, rfl⟩
  · exact ⟨hl, hs⟩
  · exact ⟨hl, hs⟩

/-- Suspended tasks fit the heap they are left with. -/
theorem Segment.fits (ht : ∀ x ∈ t, Fits o w x) (h : Segment o i t w s) :
    ∀ x ∈ s.2, Fits o s.1 x := by
  have hk := h.keeps
  cases h with
  | wait h => exact fun x hx => (h.born x hx).1
  | adopted _ _ h => exact fun x hx => (h.born x hx).1
  | expired ht' _ _ =>
    obtain ⟨-, hs, hc⟩ := (ht _ ht').shape
    obtain ⟨ha, hx, -⟩ := not_asks_of_checks hc
    exact fits_turn (hk.shape hs) (by simp [ha]) hx
  | @remembered _ w' k _ ha hl h₁ _ _ h₂ =>
    have hshape : Shape o w' k ∧ k.expires = false := by
      cases k <;> cases ha <;> exact ⟨trivial, rfl⟩
    exact fits_turn hshape.1 (fun _ => h₂.ledger.trans (h₁.ledger.trans hl)) hshape.2
  | completedStage => exact fits_turn trivial (by simp [Cont.asks]) rfl
  | completedLegacyStage => exact fits_turn trivial (by simp [Cont.asks]) rfl
  | @completed _ k _ _ _ w' _ _ hc _ =>
    cases k <;> cases hc
    · exact fits_turn trivial (by simp [Cont.asks]) rfl
    · exact fits_turn trivial (by simp [Cont.asks]) rfl
  | entered _ h₁ _ _ _ _ _ _ h₂ hts =>
    rcases hts with ⟨-, rfl⟩ | ⟨-, rfl⟩
    · refine fits_turn ?_ (by simp [Cont.asks]) rfl
      rw [Shape, h₂.chainObjs]
      simp [World.enter, h₁.chainObjs]
    · exact fun x hx => absurd hx List.not_mem_nil
  | stored hlen _ _ _ _ hts =>
    rcases hts with ⟨_, _, -, rfl⟩ | ⟨-, rfl⟩
    · exact fun x hx => absurd hx List.not_mem_nil
    · exact fits_turn (lt_of_lt_of_le hlen hk.size) (by simp [Cont.asks]) rfl
  | executed ht' ha =>
    obtain ⟨hl, hs, -⟩ := ht _ ht'
    intro x hx
    obtain rfl := List.mem_singleton.mp hx
    refine fits_replied (hk.ledger ▸ hl) (hk.shape hs) ?_
    rcases ha with ⟨-, rfl⟩ | ⟨f, rfl, -⟩
    · exact Ledger.execute_replied _ _ _ _
    · exact .inl ⟨f, rfl⟩
  | dropped ht' _ hts =>
    obtain ⟨hl, hs, -⟩ := ht _ ht'
    intro x hx
    rcases List.mem_cons.mp hx with rfl | hx
    · exact ⟨hl, hs⟩
    · rcases hts with rfl | rfl
      · exact absurd hx List.not_mem_nil
      · obtain rfl := List.mem_singleton.mp hx
        exact ⟨hl, trivial, by simp [Asked, Cont.admits]⟩
  | read ht' ha =>
    obtain ⟨hl, hs, hk', -⟩ := ht _ ht'
    intro x hx
    obtain rfl := List.mem_singleton.mp hx
    rcases ha with ⟨age, rfl⟩ | ⟨f, rfl, -⟩
    · exact ⟨hl, hs, hk'⟩
    · exact ⟨hl, hs⟩
  | _ => exact fun x hx => absurd hx List.not_mem_nil

/-- Only the ledger gives a task more than its turn. -/
theorem Segment.reply (h : Segment o i t w s) (hx : Task.resume a k ∈ s.2) :
    a = .nothing ∨ (∃ f, a = .fault f ∧ hostFault f) ∨
    (∃ c now, t = some (.call c k) ∧ i = .exec ∧ a = (execCall w c [] now).2 ∧
      s = ((execCall w c [] now).1, [.resume a k])) ∨
    ∃ id age, t = some (.read id k) ∧ s = (w, [.resume a k]) ∧
      a = .record (History.record ((versions w.ledger id).drop age)) := by
  have hone : ∀ {k'}, Task.resume a k ∈ [Task.resume .nothing k'] → a = .nothing := by
    intro k' h'
    cases List.mem_singleton.mp h'
    rfl
  cases h with
  | wait h | adopted _ _ h => exact .inl (h.born _ hx).2.1
  | expired | remembered | completedStage | completedLegacyStage | completed =>
    exact .inl (hone hx)
  | entered _ _ _ _ _ _ _ _ _ h =>
    rcases h with ⟨-, rfl⟩ | ⟨-, rfl⟩
    · exact .inl (hone hx)
    · exact absurd hx List.not_mem_nil
  | stored _ _ _ _ _ h =>
    rcases h with ⟨-, -, -, rfl⟩ | ⟨-, rfl⟩
    · exact absurd hx List.not_mem_nil
    · exact .inl (hone hx)
  | @executed c k' a' now ht ha =>
    cases List.mem_singleton.mp hx
    rcases ha with ⟨hi, ha⟩ | hf
    · exact .inr (.inr (.inl ⟨c, now, ht, hi, ha, rfl⟩))
    · exact .inr (.inl hf)
  | @dropped c k' f ts ht hf hts =>
    refine .inr (.inl ⟨f, ?_, hf⟩)
    rcases List.mem_cons.mp hx with he | hx
    · cases he
      rfl
    · rcases hts with rfl | rfl
      · exact absurd hx List.not_mem_nil
      · cases List.mem_singleton.mp hx
  | @read id k' a' ht ha =>
    cases List.mem_singleton.mp hx
    rcases ha with ⟨age, ha⟩ | hf
    · exact .inr (.inr (.inr ⟨id, age, ht, rfl, ha⟩))
    · exact .inr (.inl hf)
  | _ => exact absurd hx List.not_mem_nil

/-! ### What runs keep -/

theorem closing_same (w : World) (chain : Ref) (status : ℕ) (now : Time) :
    (w.closing chain status now).log = w.log ∧
      (w.closing chain status now).seenNeedIds = w.seenNeedIds ∧
      (w.closing chain status now).ledger = w.ledger ∧
      (w.closing chain status now).requests = w.requests ∧
      (w.closing chain status now).chains = w.chains := by
  unfold World.closing
  split <;> exact ⟨rfl, rfl, rfl, rfl, rfl⟩

theorem closeChain_seen (w : World) (chain : Ref) (status : ℕ) (now : Time) :
    (closeChain w chain status now).seenNeedIds = w.seenNeedIds :=
  (quiet_closeChain w chain status now).seen.trans (closing_same w chain status now).2.1

theorem closeChain_ledger (w : World) (chain : Ref) (status : ℕ) (now : Time) :
    (closeChain w chain status now).ledger = w.ledger :=
  (quiet_closeChain w chain status now).ledger.trans (closing_same w chain status now).2.2.1

/-- A segment leaves seen ids and ledger alone, remembers an id it has not seen, or executes a
    call. -/
theorem Segment.memory (h : Segment o i t w s) :
    (s.1.seenNeedIds = w.seenNeedIds ∧ s.1.ledger = w.ledger) ∨
    (∃ id, w.ledger = none ∧ s.1.ledger = none ∧ id ∉ w.seenNeedIds ∧
      w.seenNeedIds.length < o.maxSeenNeedIds ∧ s.1.seenNeedIds = w.seenNeedIds ++ [id]) ∨
    ∃ c about now, s.1 = (execCall w c about now).1 := by
  cases h with
  | wait h => exact .inl ⟨h.quiet.seen, h.quiet.ledger⟩
  | expired _ _ h => exact .inl ⟨h.seen, h.ledger⟩
  | adopted _ _ h => exact .inl ⟨h.quiet.seen, h.quiet.ledger⟩
  | remembered _ hl h₁ hfresh hcap h₂ =>
    refine .inr (.inl ⟨_, hl, h₂.ledger.trans (h₁.ledger.trans hl), h₁.seen ▸ hfresh,
      h₁.seen ▸ hcap, ?_⟩)
    rw [h₂.seen, World.remember, h₁.seen]
  | dispatched _ _ _ _ hd h => exact .inl ⟨h.seen, h.ledger⟩
  | completedStage _ _ _ _ _ _ _ h => exact .inl ⟨h.seen, h.ledger⟩
  | completedLegacyStage _ _ _ h => exact .inl ⟨h.seen, h.ledger⟩
  | completed _ _ _ h => exact .inl ⟨h.seen, h.ledger⟩
  | delivered _ _ _ h => exact .inl ⟨h.seen, h.ledger⟩
  | entered _ h₁ _ _ _ _ _ _ h₂ _ => exact .inl ⟨h₂.seen.trans h₁.seen, h₂.ledger.trans h₁.ledger⟩
  | closed _ h =>
    exact .inl ⟨h.seen.trans (closeChain_seen _ _ _ _), h.ledger.trans (closeChain_ledger _ _ _ _)⟩
  | stageSent _ _ h₁ _ h₂ => exact .inl ⟨h₂.seen.trans h₁.seen, h₂.ledger.trans h₁.ledger⟩
  | stored _ _ _ _ hw₁ h =>
    subst hw₁
    rcases h with ⟨_, _, h, -⟩ | ⟨h, -⟩
    · exact .inl ⟨h.seen.trans (closeChain_seen _ _ _ _),
        h.ledger.trans (closeChain_ledger _ _ _ _)⟩
    · exact .inl ⟨h.seen, h.ledger⟩
  | cancelled _ _ h => exact .inl ⟨h.seen, h.ledger⟩
  | streamed _ _ _ h => exact .inl ⟨h.seen, h.ledger⟩
  | spilled _ _ _ h => exact .inl ⟨h.seen, h.ledger⟩
  | repeated _ _ _ h => exact .inl ⟨h.seen, h.ledger⟩
  | refused _ _ _ _ h => exact .inl ⟨h.seen, h.ledger⟩
  | refusedByLedger _ _ h => exact .inl ⟨h.seen, h.ledger⟩
  | executed _ _ => exact .inr (.inr ⟨_, _, _, rfl⟩)
  | dropped _ _ _ => exact .inl ⟨rfl, rfl⟩
  | read _ _ => exact .inl ⟨rfl, rfl⟩
  | peer _ => exact .inr (.inr ⟨_, _, _, rfl⟩)
  | timeout _ _ _ => exact .inl ⟨closeChain_seen _ _ _ _, closeChain_ledger _ _ _ _⟩

/-- What holds of every relay, and of every ledger it uses. -/
structure Sane (o : Options) (w : World) : Prop where
  wf : Wf w
  lineage : ∀ id, Ledger.Abstract (versions w.ledger id)
  seen : w.seenNeedIds.Nodup
  room : w.seenNeedIds.length ≤ o.maxSeenNeedIds

/-- What a run may change only one way. -/
structure Onward (w w' : World) : Prop extends Keeps w w' where
  history : ∀ id, versions w.ledger id <:+ versions w'.ledger id
  seen : w.seenNeedIds <+: w'.seenNeedIds

theorem Segment.onward (h : Segment o i t w s) : Onward w s.1 := by
  refine ⟨h.keeps, fun id => ?_, ?_⟩
  · rcases h.memory with ⟨-, hl⟩ | ⟨_, hl, hl', -⟩ | ⟨c, about, now, he⟩
    · rw [hl]
    · rw [hl, hl']
    · rw [he]; exact Ledger.execute_suffix _ _ _ _ _
  · rcases h.memory with ⟨hs, -⟩ | ⟨_, -, -, -, -, hs⟩ | ⟨c, about, now, he⟩
    · rw [hs]
    · rw [hs]; exact List.prefix_append _ _
    · rw [he]; exact List.prefix_rfl

theorem Segment.sane (hw : Sane o w) (h : Segment o i t w s) : Sane o s.1 := by
  refine ⟨h.wf hw.wf, fun id => ?_, ?_, ?_⟩
  · rcases h.memory with ⟨-, hl⟩ | ⟨_, hl, hl', -⟩ | ⟨c, about, now, he⟩
    · rw [hl]; exact hw.lineage id
    · rw [hl', ← hl]; exact hw.lineage id
    · rw [he]; exact Ledger.execute_abstract hw.lineage _ _ _ _
  · rcases h.memory with ⟨hs, -⟩ | ⟨id, -, -, hfresh, -, hs⟩ | ⟨c, about, now, he⟩
    · rw [hs]; exact hw.seen
    · rw [hs, List.nodup_append]
      refine ⟨hw.seen, List.pairwise_singleton _ _, fun a ha b hb => ?_⟩
      rw [List.mem_singleton.mp hb]
      exact fun heq => hfresh (heq ▸ ha)
    · rw [he]; exact hw.seen
  · rcases h.memory with ⟨hs, -⟩ | ⟨_, -, -, -, hcap, hs⟩ | ⟨c, about, now, he⟩
    · rw [hs]; exact hw.room
    · rw [hs, List.length_append]; exact hcap
    · rw [he]; exact hw.room

/-- Every run of a relay keeps it sane and its tasks fitting. -/
theorem sane_sound (o : Options) (G : World → Option Task → Input × Env o → Prop) :
    Sound (machine o) G (Sane o) (Fits o) Onward where
  react w t e w' ts hw ht _ hM := by
    have h := segment_of_machine hw.wf ht hM
    exact ⟨h.sane hw, h.onward, h.fits ht⟩
  stable _ _ _ _ hR hx := hR.fits hx

theorem holds_init (o : Options) {ledger : Option Book}
    (hl : ∀ l ∈ ledger, ∀ id, l id = []) : Holds (Sane o) (Fits o) (init ledger) := by
  refine ⟨⟨⟨by simp [init, World.start], by simp [init, World.start, World.view]⟩, fun id => ?_,
    List.nodup_nil, Nat.zero_le _⟩, fun _ h => absurd h List.not_mem_nil⟩
  have : versions ledger id = [] := by
    cases ledger with
    | none => rfl
    | some l => exact hl l rfl id
  rw [init, World.start, this]
  exact .nil

end Truyn.Relay
