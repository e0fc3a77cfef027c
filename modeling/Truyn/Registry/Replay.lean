import Truyn.Js.Text
import Truyn.Schemes.Along
import Truyn.Schemes.Maps

/-! registry:replay | a signed IDENTITY registers once, but for one millisecond

    A registration leaves a marker that expires when the last envelope that could have been created
    by then is no longer fresh. Freshness includes that millisecond and the marker does not, so an
    envelope from as far in the future as is allowed can be presented again right then
    (`registered_once`). -/

namespace Truyn.Registry.Replay

/-- An IDENTITY; `createdAt` is what `Date.parse` makes of it. -/
structure Envelope where
  id : JsString
  createdAt : Option ℤ
  deriving DecidableEq

/-- A request at `/v1/register`; `checked` is that the checks before this one pass. -/
structure Request where
  now : ℤ
  checked : Bool
  envelope : Envelope

structure State where
  usedRegistrationIds : List (JsString × ℤ)
  /-- What was accepted, and when. -/
  accepted : List (Envelope × ℤ)

def State.start : State := ⟨[], []⟩

variable (registrationFreshnessMs : ℕ)

def cleanupRegistrationReplayCache (now : ℤ) (used : List (JsString × ℤ)) : List (JsString × ℤ) :=
  used.filter fun e => ¬e.2 ≤ now

def registrationIsFresh (e : Envelope) (now : ℤ) : Bool :=
  e.createdAt.any fun createdAt => createdAt ≤ now + 30000 ∧ now - createdAt ≤ registrationFreshnessMs

def register (s : State) (r : Request) : State :=
  if !r.checked then s
  else
    let used := cleanupRegistrationReplayCache r.now s.usedRegistrationIds
    if !registrationIsFresh registrationFreshnessMs r.envelope r.now then
      { s with usedRegistrationIds := used }
    else if (Maps.get used r.envelope.id).isSome then { s with usedRegistrationIds := used }
    else
      { s with
        usedRegistrationIds :=
          Maps.set r.envelope.id (r.now + registrationFreshnessMs + 30000) used
        accepted := s.accepted ++ [(r.envelope, r.now)] }

variable {registrationFreshnessMs} {s : State} {e : Envelope} {now at_ clock : ℤ}

/-- The last time at which an envelope that was accepted may be fresh. -/
theorem fresh_until (haccepted : registrationIsFresh registrationFreshnessMs e at_ = true)
    (hfresh : registrationIsFresh registrationFreshnessMs e now = true) :
    now ≤ at_ + registrationFreshnessMs + 30000 := by
  unfold registrationIsFresh at haccepted hfresh
  cases hcreated : e.createdAt with
  | none => simp [hcreated] at hfresh
  | some createdAt =>
    simp only [hcreated, Option.any_some, decide_eq_true_eq] at haccepted hfresh
    omega

/-- Until its marker expires an id is marked. -/
structure Inv (registrationFreshnessMs : ℕ) (s : State) (clock : ℤ) : Prop where
  fresh : ∀ a ∈ s.accepted, registrationIsFresh registrationFreshnessMs a.1 a.2 = true
  marked : ∀ a ∈ s.accepted, clock < a.2 + registrationFreshnessMs + 30000 →
    ∃ x, Maps.get s.usedRegistrationIds a.1.id = some x ∧ a.2 + registrationFreshnessMs + 30000 ≤ x
  once : s.accepted.Pairwise fun a b => a.1 ≠ b.1
  keys : (s.usedRegistrationIds.map Prod.fst).Nodup

theorem get_cleanup {used : List (JsString × ℤ)} {id : JsString} {x : ℤ}
    (hkeys : (used.map Prod.fst).Nodup) (hx : Maps.get used id = some x) (hnow : now < x) :
    Maps.get (cleanupRegistrationReplayCache now used) id = some x :=
  Maps.get_filter hkeys hx (by simpa using hnow)

/-- Time goes by, and markers that have expired are deleted. -/
theorem Inv.cleanup (h : Inv registrationFreshnessMs s clock) (hnow : clock ≤ now) :
    Inv registrationFreshnessMs { s with
      usedRegistrationIds := cleanupRegistrationReplayCache now s.usedRegistrationIds } now := by
  refine { h with marked := ?_, keys := Maps.nodup_filter h.keys }
  intro a ha hlt
  obtain ⟨x, hx, hle⟩ := h.marked a ha (hnow.trans_lt hlt)
  exact ⟨x, get_cleanup h.keys hx (hlt.trans_le hle), hle⟩

/-- A request that does not come in the one millisecond. -/
def Fits (registrationFreshnessMs : ℕ) (s : State) (r : Request) : Prop :=
  ∀ a ∈ s.accepted, a.1 = r.envelope → r.now ≠ a.2 + registrationFreshnessMs + 30000

instance : DecidableRel (Fits registrationFreshnessMs) := fun _ _ =>
  inferInstanceAs (Decidable (∀ _ ∈ _, _))

theorem Inv.register {r : Request} (h : Inv registrationFreshnessMs s clock) (hnow : clock ≤ r.now)
    (hfit : Fits registrationFreshnessMs s r) :
    Inv registrationFreshnessMs (register registrationFreshnessMs s r) r.now := by
  have hclean := h.cleanup hnow
  unfold Replay.register
  split
  · exact { h with marked := fun a ha hlt => h.marked a ha (hnow.trans_lt hlt) }
  dsimp only
  split
  · exact hclean
  next hfresh =>
  have hfresh : registrationIsFresh registrationFreshnessMs r.envelope r.now = true := by
    simpa using hfresh
  split
  · exact hclean
  next hnone =>
  refine ⟨?_, ?_, ?_, Maps.nodup_set hclean.keys⟩
  · intro a ha
    rcases List.mem_append.mp ha with ha | ha
    · exact h.fresh a ha
    · obtain rfl := List.mem_singleton.mp ha
      exact hfresh
  · intro a ha hlt
    rcases List.mem_append.mp ha with ha | ha
    · obtain ⟨x, hx, hle⟩ := hclean.marked a ha hlt
      have hne : r.envelope.id ≠ a.1.id := by
        intro heq
        dsimp only at hx
        rw [heq, hx] at hnone
        exact hnone rfl
      exact ⟨x, (Maps.get_set_ne hne).trans hx, hle⟩
    · obtain rfl := List.mem_singleton.mp ha
      exact ⟨_, Maps.get_set_self, le_rfl⟩
  · rw [List.pairwise_append]
    refine ⟨h.once, List.pairwise_singleton _ _, ?_⟩
    -- Were it accepted before, its marker would still be there.
    intro a ha b hb heq
    obtain rfl := List.mem_singleton.mp hb
    dsimp only at heq
    rw [← heq] at hfresh
    have hlt := lt_of_le_of_ne (fresh_until (h.fresh a ha) hfresh) (hfit a ha heq)
    obtain ⟨x, hx, -⟩ := hclean.marked a ha hlt
    dsimp only at hx
    rw [← heq, hx] at hnone
    exact hnone rfl

/-! ### Runs -/

def run (registrationFreshnessMs : ℕ) (rs : List Request) : State :=
  rs.foldl (register registrationFreshnessMs) .start

theorem Inv.later (h : Inv registrationFreshnessMs s clock) (hnow : clock ≤ now) :
    Inv registrationFreshnessMs s now :=
  { h with marked := fun a ha hlt => h.marked a ha (hnow.trans_lt hlt) }

theorem Inv.run {rs : List Request} (h : Inv registrationFreshnessMs s clock)
    (hclock : (rs.map Request.now).Pairwise (· ≤ ·)) (hstart : ∀ r ∈ rs, clock ≤ r.now)
    (hfits : Runs.Along (Replay.register registrationFreshnessMs) (Fits registrationFreshnessMs) s rs)
    (hnow : clock ≤ now) (hend : ∀ r ∈ rs, r.now ≤ now) :
    Inv registrationFreshnessMs (rs.foldl (Replay.register registrationFreshnessMs) s) now := by
  induction rs generalizing s clock with
  | nil => exact h.later hnow
  | cons r rs ih =>
    rw [List.map_cons, List.pairwise_cons] at hclock
    have hr := h.register (hstart r List.mem_cons_self) hfits.1
    refine ih hr hclock.2 (fun q hq => ?_) hfits.2 (hend r List.mem_cons_self) fun q hq => ?_
    · exact hclock.1 q.now (List.mem_map_of_mem hq)
    · exact hend q (List.mem_cons_of_mem r hq)

/-- NO REPLAY: with a clock that does not go back, and no envelope presented again just as far after
    its acceptance as its marker lasts, no envelope is accepted twice; and whenever an accepted
    envelope is still fresh, its id is still marked. -/
theorem registered_once (registrationFreshnessMs : ℕ) (rs : List Request)
    (hclock : (rs.map Request.now).Pairwise (· ≤ ·))
    (hfits : Runs.Along (register registrationFreshnessMs) (Fits registrationFreshnessMs) .start rs) :
    ((run registrationFreshnessMs rs).accepted.Pairwise fun a b => a.1 ≠ b.1) ∧
    ∀ a ∈ (run registrationFreshnessMs rs).accepted, ∀ now, (∀ r ∈ rs, r.now ≤ now) →
      registrationIsFresh registrationFreshnessMs a.1 now = true →
      now ≠ a.2 + registrationFreshnessMs + 30000 →
      a.1.id ∈ (cleanupRegistrationReplayCache now
        (run registrationFreshnessMs rs).usedRegistrationIds).map Prod.fst := by
  have hinv : ∀ now, (∀ r ∈ rs, r.now ≤ now) →
      Inv registrationFreshnessMs (run registrationFreshnessMs rs) now := by
    intro now hend
    have hempty : Inv registrationFreshnessMs .start
        (((rs.map Request.now).head?).getD now) :=
      ⟨by simp [State.start], by simp [State.start], List.Pairwise.nil, List.nodup_nil⟩
    refine hempty.run hclock (fun r hr => ?_) hfits ?_ hend
    · cases rs with
      | nil => cases hr
      | cons q rs =>
        rw [List.map_cons, List.pairwise_cons] at hclock
        rcases List.mem_cons.mp hr with rfl | hr
        · exact le_rfl
        · exact hclock.1 r.now (List.mem_map_of_mem hr)
    · cases rs with
      | nil => exact le_rfl
      | cons q rs => exact hend q List.mem_cons_self
  constructor
  · cases hmax : (rs.map Request.now).getLast? with
    | none =>
      have hnil : rs = [] := by simpa using hmax
      subst hnil
      exact List.Pairwise.nil
    | some last =>
      refine (hinv last fun r hr => ?_).once
      obtain ⟨front, hfront⟩ := List.getLast?_eq_some_iff.mp hmax
      have hmem : r.now ∈ front ++ [last] := hfront ▸ List.mem_map_of_mem hr
      rw [hfront, List.pairwise_append] at hclock
      rcases List.mem_append.mp hmem with hmem | hmem
      · exact hclock.2.2 _ hmem _ List.mem_cons_self
      · exact (List.mem_singleton.mp hmem).le
  · intro a ha now hend hfresh hne
    have h := hinv now hend
    have hlt := lt_of_le_of_ne (fresh_until (h.fresh a ha) hfresh) hne
    obtain ⟨x, hx, hle⟩ := h.marked a ha hlt
    have hget := get_cleanup h.keys hx (hlt.trans_le hle)
    exact List.mem_map.mpr ⟨_, Maps.mem_of_get hget, rfl⟩

/-! ### An envelope from the future -/

/-- Created half a minute from the beginning. -/
def futureEnvelope : Envelope := ⟨js "identity-1", some 30000⟩

theorem registered_once_twice :
    ((run 300000 [⟨0, true, futureEnvelope⟩, ⟨329999, true, futureEnvelope⟩]).accepted.Pairwise
      fun a b => a.1 ≠ b.1) :=
  (registered_once 300000 [⟨0, true, futureEnvelope⟩, ⟨329999, true, futureEnvelope⟩] (by decide)
    (by decide)).1

/-- Presented again when its marker has just expired and it is just fresh, it is accepted again. -/
theorem registered_again :
    (run 300000 [⟨0, true, futureEnvelope⟩, ⟨330000, true, futureEnvelope⟩]).accepted =
      [(futureEnvelope, 0), (futureEnvelope, 330000)] := by
  decide

end Truyn.Registry.Replay
