import Truyn.Schemes.Acts

/-! scheme:causes | what a call must have read before it acts

    A program acts only after a read of some document came out as it wants (`Until`). Then in every
    run that starts before the call, where the call has acted there is a moment in between at which
    the document was like that (`cause_of_run`). Each action has one rule. -/

namespace Truyn.Programs
open Relation

section Programs
universe u
variable {κ α ω ο β γ χ : Type u} {k : κ} {E : ο → Prop} {R : Option (ℕ × α) → Prop}

/-- No action in `E` before a read of `k` that comes out in `R`; without one, the end is in `P`. -/
def Until (k : κ) (E : ο → Prop) (R : Option (ℕ × α) → Prop) {β : Type u} (P : β → Prop) :
    Prog κ α ω ο β → Prop
  | .done b => P b
  | .get k' next => (∀ r, (k' = k → ¬R r) → Until k E R P (next (some r))) ∧
      Until k E R P (next none)
  | .put _ _ _ next => ∀ r, Until k E R P (next r)
  | .ask next => ∀ x, Until k E R P (next x)
  | .emit o next => ¬E o ∧ Until k E R P next

variable {p : Prog κ α ω ο β} {m : ℕ}

theorem Until.mono {P P' : β → Prop} (h : Until k E R P p) (hP : ∀ b, P b → P' b) :
    Until k E R P' p := by
  induction p with
  | done b => exact hP b h
  | get k' next ih => exact ⟨fun r hr => ih _ (h.1 r hr), ih _ h.2⟩
  | put k' tag d next ih => exact fun r => ih r (h r)
  | ask next ih => exact fun x => ih x (h x)
  | emit o next ih => exact ⟨h.1, ih h.2⟩

theorem Until.bind {P : γ → Prop} {f : β → Prog κ α ω ο γ}
    (h : Until k E R (fun b => Until k E R P (f b)) p) : Until k E R P (p.bind f) := by
  induction p with
  | done b => exact h
  | get k' next ih => exact ⟨fun r hr => ih _ (h.1 r hr), ih _ h.2⟩
  | put k' tag d next ih => exact fun r => ih r (h r)
  | ask next ih => exact fun x => ih x (h x)
  | emit o next ih => exact ⟨h.1, ih h.2⟩

variable [DecidableEq κ] {prog : χ → Prog κ α ω ο β} {w₀ w w' : World κ α ω ο β χ} {n : ℕ}

/-- Call `n` has not acted, and will not before its read. -/
def Waiting (n : ℕ) (k : κ) (E : ο → Prop) (R : Option (ℕ × α) → Prop) (w : World κ α ω ο β χ) :
    Prop :=
  (∀ o, (n, o) ∈ w.store.log → ¬E o) ∧ ∀ p, w.running n = some p → Until k E R (fun _ => True) p

omit [DecidableEq κ] in
/-- A step of call `m`: if it is call `n`, what is left of its program still waits. -/
theorem Waiting.resume {p : Option (Prog κ α ω ο β)} {u : World κ α ω ο β χ} (h : Waiting n k E R w)
    (hrunning : u.running = w.running)
    (hlog : ∀ o, (n, o) ∈ u.store.log → (n, o) ∈ w.store.log ∨ ¬E o)
    (hp : m = n → ∀ q, p = some q → Until k E R (fun _ => True) q) :
    Waiting n k E R (u.resume m p) := by
  refine ⟨fun o ho => ?_, fun q hq => ?_⟩
  · rcases hlog o ho with ho | ho
    · exact h.1 o ho
    · exact ho
  · by_cases hm : m = n
    · subst hm
      rw [World.resume_running] at hq
      exact hp rfl q hq
    · rw [World.resume_running_ne (Ne.symm hm), hrunning] at hq
      exact h.2 q hq

omit [DecidableEq κ] in
/-- A step of call `m` that does nothing outside. -/
theorem Waiting.quiet {p₀ : Prog κ α ω ο β} {p : Option (Prog κ α ω ο β)} {u : World κ α ω ο β χ}
    (h : Waiting n k E R w) (hr : w.running m = some p₀) (hrunning : u.running = w.running)
    (hlog : u.store.log = w.store.log)
    (hp : Until k E R (fun _ => True) p₀ → ∀ q, p = some q → Until k E R (fun _ => True) q) :
    Waiting n k E R (u.resume m p) := by
  refine h.resume hrunning (fun o ho => .inl (hlog ▸ ho)) ?_
  rintro rfl
  exact hp (h.2 _ hr)

/-- The call is waiting, or its document was as it must read it. -/
def Pending (prog : χ → Prog κ α ω ο β) (w₀ : World κ α ω ο β χ) (n : ℕ) (k : κ) (E : ο → Prop)
    (R : Option (ℕ × α) → Prop) (w : World κ α ω ο β χ) : Prop :=
  (∃ u, Run prog false w₀ u ∧ Run prog false u w ∧ R (u.store.read k 0)) ∨ Waiting n k E R w

/-- STEP: each step keeps a call waiting for its read, or is that read. -/
theorem pending_step (hrun : Run prog false w₀ w) (hstep : Step prog false w w')
    (hcall : ∀ c, w'.calls[n]? = some c → Until k E R (fun _ => True) (prog c))
    (h : Pending prog w₀ n k E R w) : Pending prog w₀ n k E R w' := by
  rcases h with ⟨u, hu, huw, hR⟩ | h
  · exact .inl ⟨u, hu, huw.tail hstep, hR⟩
  cases hstep with
  | call c =>
    refine .inr (h.resume rfl (fun o ho => .inl ho) ?_)
    rintro rfl q ⟨⟩
    exact hcall c List.getElem?_concat_length
  | @read m k' next age hr ha =>
    obtain rfl := ha rfl
    by_cases hread : k' = k ∧ R (w.store.read k 0)
    · exact .inl ⟨w, hrun, .single (.read 0 hr ha), hread.2⟩
    · refine .inr (h.quiet hr rfl rfl ?_)
      rintro hu q ⟨⟩
      exact hu.1 _ fun hk hR => hread ⟨hk, hk ▸ hR⟩
  | unread hr =>
    refine .inr (h.quiet hr rfl rfl ?_)
    rintro hu q ⟨⟩
    exact hu.2
  | write hr hl =>
    refine .inr (h.quiet hr rfl rfl ?_)
    rintro hu q ⟨⟩
    exact hu _
  | refuse hr hl =>
    refine .inr (h.quiet hr rfl rfl ?_)
    rintro hu q ⟨⟩
    exact hu _
  | lose hr =>
    refine .inr (h.quiet hr rfl rfl ?_)
    rintro hu q ⟨⟩
    exact hu _
  | late l hl htag => exact .inr h
  | answer x hr =>
    refine .inr (h.quiet hr rfl rfl ?_)
    rintro hu q ⟨⟩
    exact hu x
  | @act m next o hr =>
    refine .inr (h.resume rfl (fun o' ho' => ?_) ?_)
    · rcases List.mem_cons.mp ho' with heq | ho'
      · cases heq
        exact .inr (h.2 _ hr).1
      · exact .inl ho'
    · rintro rfl q ⟨⟩
      exact (h.2 _ hr).2
  | finish hr => exact .inr (h.quiet hr rfl rfl fun _ q hq => by cases hq)
  | crash hr => exact .inr (h.quiet hr rfl rfl fun _ q hq => by cases hq)

/-- A step makes calls, and forgets none. -/
theorem calls_step {stale : Bool} (hstep : Step prog stale w w') : w.calls <+: w'.calls := by
  cases hstep with
  | call c => exact List.prefix_append _ _
  | _ => exact List.prefix_rfl

/-- CAUSE: where a call has acted, its document was before, and after the call was made, as the call
    must have read it. -/
theorem cause_of_run {o : ο} (hrun : Run prog false w₀ w) (hnew : w₀.running n = none)
    (hlog : ∀ o, (n, o) ∉ w₀.store.log)
    (hcall : ∀ c, w.calls[n]? = some c → Until k E R (fun _ => True) (prog c))
    (hact : (n, o) ∈ w.store.log) (hE : E o) :
    ∃ u, Run prog false w₀ u ∧ Run prog false u w ∧ R (u.store.read k 0) := by
  have hpending : Pending prog w₀ n k E R w := by
    clear hact
    induction hrun with
    | refl =>
      refine .inr ⟨fun o ho => absurd ho (hlog o), fun p hp => ?_⟩
      rw [hnew] at hp
      cases hp
    | @tail u v hu hstep ih =>
      refine pending_step hu hstep hcall (ih fun c hc => hcall c ?_)
      obtain ⟨later, hlater⟩ := calls_step hstep
      rw [← hlater]
      exact (List.getElem?_append_left (getElem?_lt hc)).trans hc
  rcases hpending with h | h
  · exact h
  · exact absurd hE (h.1 o hact)

end Programs

/-! ### Programs that may fail -/

variable {κ α ω ο β γ φ : Type} {k : κ} {E : ο → Prop} {R : Option (ℕ × α) → Prop}

/-- `Until`, of a program that may fail; nothing is asked of a fault. -/
def Awaits (k : κ) (E : ο → Prop) (R : Option (ℕ × α) → Prop) (P : β → Prop)
    (p : Act κ α ω ο φ β) : Prop := Until k E R (fun r => ∀ x, r = .ok x → P x) p

variable {P : β → Prop} {p : Act κ α ω ο φ β} {lost : φ} {k' : κ}

theorem Awaits.throw {e : φ} :
    Awaits k E R P (Act.throw e : Act κ α ω ο φ β) := fun _ h => nomatch h

theorem Awaits.pure {x : β} (h : P x) :
    Awaits k E R P (pure x : Act κ α ω ο φ β) := fun _ hx => Except.ok.inj hx ▸ h

theorem Awaits.check {r : Except φ β} (h : ∀ x, r = .ok x → P x) :
    Awaits k E R P (Act.check r : Act κ α ω ο φ β) := h

theorem Awaits.bind {P : γ → Prop} {f : β → Act κ α ω ο φ γ}
    (h : Awaits k E R (fun x => Awaits k E R P (f x)) p) : Awaits k E R P (p >>= f) := by
  refine Until.bind (Until.mono h fun r hr => ?_)
  cases r with
  | error e => exact Awaits.throw
  | ok x => exact hr x rfl

theorem Awaits.catching {f : φ → Act κ α ω ο φ β} (h : Awaits k E R P p)
    (hf : ∀ e, Awaits k E R P (f e)) :
    Awaits k E R P (Act.catching p f) := by
  refine Until.bind (Until.mono h fun r hr => ?_)
  cases r with
  | error e => exact hf e
  | ok x => exact Awaits.pure (hr x rfl)

theorem Awaits.ask {P : ω → Prop} (h : ∀ x, P x) :
    Awaits k E R P (Act.ask : Act κ α ω ο φ ω) := fun x _ hx => Except.ok.inj hx ▸ h x

theorem Awaits.get {P : Option (ℕ × α) → Prop} (h : ∀ r, ¬R r → P r) :
    Awaits k E R P (Act.get lost k : Act κ α ω ο φ (Option (ℕ × α))) :=
  ⟨fun r hr _ hx => Except.ok.inj hx ▸ h r (hr rfl), fun _ hx => nomatch hx⟩

theorem Awaits.mono {P' : β → Prop} (h : Awaits k E R P p) (hP : ∀ x, P x → P' x) :
    Awaits k E R P' p := Until.mono h fun _ hr x hx => hP x (hr x hx)

/-- A read that the call does not wait for. -/
theorem Awaits.read {P : Option (ℕ × α) → Prop} {lost : φ} {k' : κ} (h : ∀ r, P r) :
    Awaits k E R P (Act.get lost k' : Act κ α ω ο φ (Option (ℕ × α))) :=
  ⟨fun r _ _ hx => Except.ok.inj hx ▸ h r, fun _ hx => nomatch hx⟩

theorem Awaits.put {P : Bool → Prop} {tag : ℕ} {d : α} (h : ∀ b, P b) :
    Awaits k E R P (Act.put lost k' tag d : Act κ α ω ο φ Bool) := by
  intro r
  cases r with
  | none => exact Awaits.throw
  | some b => exact Awaits.pure (h b)

theorem Awaits.mutate {P : Bool × α → Prop} {F : Act.LoopFaults φ} {f : ω → α → Except φ (Option α)}
    (h : ∀ r, P r) (attempts : ℕ) :
    Awaits k E R P (Act.mutate F k' f attempts : Act κ α ω ο φ (Bool × α)) := by
  induction attempts with
  | zero => exact Awaits.throw
  | succ left ih =>
    refine Awaits.bind (Awaits.read fun r => ?_)
    cases r with
    | none => exact Awaits.throw
    | some r =>
      refine Awaits.bind (Awaits.ask fun x => ?_)
      split
      · exact Awaits.throw
      · exact Awaits.pure (h _)
      · refine Awaits.bind (Awaits.put fun b => ?_)
        cases b with
        | true => exact Awaits.pure (h _)
        | false => exact ih

theorem Awaits.emit {P : Unit → Prop} {o : ο} (ho : ¬E o) (h : P ()) :
    Awaits k E R P (Act.emit o : Act κ α ω ο φ Unit) := ⟨ho, fun _ _ => h⟩

end Truyn.Programs
