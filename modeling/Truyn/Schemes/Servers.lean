import Mathlib.Data.List.Basic

/-! scheme:servers | loops that poll for requests and handle them in turn

    A handler that throws ends the batch and the loop. Just when none does, every request of every
    batch is handled, and what is sent is what each of them sends, in order (`serve_calm_iff`). -/

namespace Servers

variable {ε ρ : Type*} {handle : ε → List ρ × Bool} {e : ε} {batch : List ε}
  {polls : List (Option (List ε))}

/-- One after the other, unless the first one throws. -/
def followed (a b : List ρ × Bool) : List ρ × Bool := if a.2 then a else (a.1 ++ b.1, b.2)

/-- What a batch sends, and whether it ends in a throw. -/
def serveBatch (handle : ε → List ρ × Bool) : List ε → List ρ × Bool
  | [] => ([], false)
  | e :: batch => followed (handle e) (serveBatch handle batch)

/-- What the loop sends while it polls; `none` is a poll that throws. -/
def serve (handle : ε → List ρ × Bool) : List (Option (List ε)) → List ρ × Bool
  | [] => ([], false)
  | none :: _ => ([], true)
  | some batch :: polls => followed (serveBatch handle batch) (serve handle polls)

/-- The requests that were received. -/
def received (polls : List (Option (List ε))) : List ε := polls.flatMap fun poll => poll.getD []

theorem followed_throws (a b : List ρ × Bool) : (followed a b).2 = (a.2 || b.2) := by
  unfold followed
  cases ha : a.2
  · rfl
  · exact ha

theorem serveBatch_calm (h : ∀ e ∈ batch, (handle e).2 = false) :
    serveBatch handle batch = (batch.flatMap fun e => (handle e).1, false) := by
  induction batch with
  | nil => rfl
  | cons e batch ih =>
    obtain ⟨he, hbatch⟩ := List.forall_mem_cons.mp h
    rw [serveBatch, ih hbatch, followed, he]
    rfl

/-- Where nothing throws, all that was received is handled. -/
theorem serve_calm (hpolls : ∀ poll ∈ polls, poll ≠ none)
    (h : ∀ e ∈ received polls, (handle e).2 = false) :
    serve handle polls = ((received polls).flatMap fun e => (handle e).1, false) := by
  induction polls with
  | nil => rfl
  | cons poll polls ih =>
    obtain ⟨hpoll, hrest⟩ := List.forall_mem_cons.mp hpolls
    obtain ⟨batch, rfl⟩ := Option.ne_none_iff_exists'.mp hpoll
    have hbatch : ∀ e ∈ batch, (handle e).2 = false :=
      fun e he => h e (List.mem_append_left _ he)
    have hlater : ∀ e ∈ received polls, (handle e).2 = false :=
      fun e he => h e (List.mem_append_right _ he)
    have hsplit : received (some batch :: polls) = batch ++ received polls := List.flatMap_cons
    rw [serve, serveBatch_calm hbatch, ih hrest hlater, followed, hsplit, List.flatMap_append]
    rfl

theorem calm_of_serveBatch (h : (serveBatch handle batch).2 = false) :
    ∀ e ∈ batch, (handle e).2 = false := by
  induction batch with
  | nil => simp
  | cons e batch ih =>
    rw [serveBatch, followed_throws, Bool.or_eq_false_iff] at h
    exact List.forall_mem_cons.mpr ⟨h.1, ih h.2⟩

theorem calm_of_serve (h : (serve handle polls).2 = false) :
    (∀ poll ∈ polls, poll ≠ none) ∧ ∀ e ∈ received polls, (handle e).2 = false := by
  induction polls with
  | nil => simp [received]
  | cons poll polls ih =>
    cases poll with
    | none => cases h
    | some batch =>
      rw [serve, followed_throws, Bool.or_eq_false_iff] at h
      obtain ⟨hpolls, hlater⟩ := ih h.2
      refine ⟨List.forall_mem_cons.mpr ⟨by simp, hpolls⟩, fun e he => ?_⟩
      rw [received, List.flatMap_cons] at he
      rcases List.mem_append.mp he with he | he
      · exact calm_of_serveBatch h.1 e he
      · exact hlater e he

theorem serve_calm_iff : serve handle polls = ((received polls).flatMap fun e => (handle e).1, false) ↔
    (∀ poll ∈ polls, poll ≠ none) ∧ ∀ e ∈ received polls, (handle e).2 = false :=
  ⟨fun h => calm_of_serve (by rw [h]), fun h => serve_calm h.1 h.2⟩

end Servers
