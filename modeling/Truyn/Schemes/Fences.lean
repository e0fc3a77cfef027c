import Mathlib

/-! scheme:fences | programs that look at an abort signal between what they ask for

    A program asks for one thing after another, goes on with each answer, and looks at its signal in
    between. The signal may rise while an answer is awaited, and stays up. `Silent V p`: with the
    signal up, `p` asks for nothing in `V`. `Fenced V L p`: whenever the signal rises, `p` asks for
    nothing in `V` any more, except where it goes on with an answer in `L`. `Ends b p l`: with the
    signal up or down (`b`), `p` may come to its end with these questions and answers. -/

namespace Fences

variable {α ω : Type*}

inductive Prog (α ω : Type*)
  | done
  | ask (a : α) (next : ω → Prog α ω)
  | ifAborted (yes no : Prog α ω)

/-- What is asked for next, and how the program goes on with the answer. -/
def Prog.go (aborted : Bool) : Prog α ω → Option (α × (ω → Prog α ω))
  | .done => none
  | .ask a next => some (a, next)
  | .ifAborted yes no => if aborted then yes.go aborted else no.go aborted

def Silent (V : α → Prop) : Prog α ω → Prop
  | .done => True
  | .ask a next => ¬V a ∧ ∀ x, Silent V (next x)
  | .ifAborted yes _ => Silent V yes

def Fenced (V : α → Prop) (L : α → ω → Prop) : Prog α ω → Prop
  | .done => True
  | .ask a next => ∀ x, (¬L a x → Silent V (next x)) ∧ Fenced V L (next x)
  | .ifAborted _ no => Fenced V L no

variable {V : α → Prop} {L : α → ω → Prop} {p yes no : Prog α ω} {a : α} {x : ω}
  {next : ω → Prog α ω}

@[simp] theorem silent_done : Silent V (.done : Prog α ω) := trivial

theorem Silent.go (h : Silent V p) (hgo : p.go true = some (a, next)) :
    ¬V a ∧ ∀ x, Silent V (next x) := by
  induction p with
  | done => cases hgo
  | ask b rest _ =>
    cases hgo
    exact h
  | ifAborted yes no ihyes _ => exact ihyes h hgo

theorem Fenced.go (h : Fenced V L p) (hgo : p.go false = some (a, next)) :
    ∀ x, (¬L a x → Silent V (next x)) ∧ Fenced V L (next x) := by
  induction p with
  | done => cases hgo
  | ask b rest _ =>
    cases hgo
    exact h
  | ifAborted yes no _ ihno => exact ihno h hgo

/-- A program that is silent from now on, or fenced, as the signal will be. -/
structure Safe (V : α → Prop) (L : α → ω → Prop) (p : Prog α ω) : Prop where
  silent : Silent V p
  fenced : Fenced V L p

theorem Safe.done : Safe V L (.done : Prog α ω) := ⟨trivial, trivial⟩

theorem Safe.ask (ha : ¬V a) (h : ∀ x, Safe V L (next x)) : Safe V L (.ask a next) :=
  ⟨⟨ha, fun x => (h x).silent⟩, fun x => ⟨fun _ => (h x).silent, (h x).fenced⟩⟩

theorem Safe.ifAborted (hyes : Silent V yes) (hno : Fenced V L no) : Safe V L (.ifAborted yes no) :=
  ⟨hyes, hno⟩

/-- What is asked for in `V` is fenced by what comes before. -/
theorem Fenced.ask (h : ∀ x, Safe V L (next x)) : Fenced V L (.ask a next) :=
  fun x => ⟨fun _ => (h x).silent, (h x).fenced⟩

/-! ### Whole runs of a program -/

/-- A question, its answer, and whether the signal was up by then. -/
structure Entry (α ω : Type*) where
  asked : α
  answer : ω
  aborted : Bool

inductive Ends : Bool → Prog α ω → List (Entry α ω) → Prop
  | done (b : Bool) : Ends b .done []
  | ask {b c : Bool} {a : α} {next : ω → Prog α ω} {x : ω} {l : List (Entry α ω)} :
      (b = true → c = true) → Ends c (next x) l → Ends b (.ask a next) (⟨a, x, c⟩ :: l)
  | yes {p q : Prog α ω} {l : List (Entry α ω)} : Ends true p l → Ends true (.ifAborted p q) l
  | no {p q : Prog α ω} {l : List (Entry α ω)} : Ends false q l → Ends false (.ifAborted p q) l

variable {b : Bool} {l : List (Entry α ω)}

@[simp] theorem ends_done : Ends b (.done : Prog α ω) l ↔ l = [] := by
  constructor
  · intro h
    cases h
    rfl
  · rintro rfl
    exact .done b

theorem ends_ask : Ends b (.ask a next) l ↔
    ∃ x c k, (b = true → c = true) ∧ Ends c (next x) k ∧ l = ⟨a, x, c⟩ :: k := by
  constructor
  · intro h
    cases h with
    | ask hb h => exact ⟨_, _, _, hb, h, rfl⟩
  · rintro ⟨x, c, k, hb, h, rfl⟩
    exact .ask hb h

theorem ends_ifAborted : Ends b (.ifAborted yes no) l ↔
    b = true ∧ Ends true yes l ∨ b = false ∧ Ends false no l := by
  constructor
  · intro h
    cases h with
    | yes h => exact .inl ⟨rfl, h⟩
    | no h => exact .inr ⟨rfl, h⟩
  · rintro (⟨rfl, h⟩ | ⟨rfl, h⟩)
    · exact .yes h
    · exact .no h

/-- The run with these answers, each with whether the signal has risen by then. -/
def play (b : Bool) : Prog α ω → List (ω × Bool) → Option (List (Entry α ω))
  | .done, _ => some []
  | .ask _ _, [] => none
  | .ask a next, (x, c) :: xs => (play (b || c) (next x) xs).map fun l => ⟨a, x, b || c⟩ :: l
  | .ifAborted yes no, xs => if b then play b yes xs else play b no xs

theorem ends_of_play {xs : List (ω × Bool)} (h : play b p xs = some l) : Ends b p l := by
  induction p generalizing b xs l with
  | done =>
    cases h
    exact .done b
  | ask a next ih =>
    cases xs with
    | nil => cases h
    | cons x xs =>
      obtain ⟨k, hk, rfl⟩ := Option.map_eq_some_iff.mp h
      exact .ask (fun hb => by rw [hb, Bool.true_or]) (ih x.1 hk)
  | ifAborted yes no ihyes ihno =>
    cases b with
    | true => exact .yes (ihyes h)
    | false => exact .no (ihno h)

end Fences
