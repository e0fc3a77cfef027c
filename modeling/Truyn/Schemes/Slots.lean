import Truyn.Schemes.Leases

/-! scheme:slots | calls that wait for a slot of their lane and of their peer

    A call belongs to a lane and is for a peer; both bound how many run at a time. What a scheduler
    does is a list of calls with their status: a call is added, a running one is done, a waiting one
    expires, and a waiting one starts. `Starts` is the start of the call that came first among those
    of its lane that can run. A start takes slots only, so whoever cannot run cannot run after it. -/

namespace Slots

variable {ι κ : Type*}

inductive Status
  | waiting
  | running
  | done
  | expired
  deriving DecidableEq

structure Call (ι κ : Type*) where
  lane : ι
  peer : κ
  status : Status

variable [DecidableEq ι] [DecidableEq κ] {limit : ι → ℕ} {perPeer : ℕ} {cs ds : List (Call ι κ)}
  {c d : Call ι κ} {l : ι} {p : κ} {i j : ℕ}

def Call.runsIn (l : ι) (c : Call ι κ) : Bool := c.status = .running ∧ c.lane = l

def Call.runsAt (p : κ) (c : Call ι κ) : Bool := c.status = .running ∧ c.peer = p

def inLane (cs : List (Call ι κ)) (l : ι) : ℕ := cs.countP (Call.runsIn l)

def atPeer (cs : List (Call ι κ)) (p : κ) : ℕ := cs.countP (Call.runsAt p)

variable (limit perPeer) in
/-- Both the lane and the peer have a free slot. -/
def Free (cs : List (Call ι κ)) (l : ι) (p : κ) : Prop := inLane cs l < limit l ∧ atPeer cs p < perPeer

instance : Decidable (Free limit perPeer cs l p) := inferInstanceAs (Decidable (_ ∧ _))

variable (limit perPeer) in
structure Within (cs : List (Call ι κ)) : Prop where
  lane : ∀ l, inLane cs l ≤ limit l
  peer : ∀ p, atPeer cs p ≤ perPeer

variable (limit perPeer) in
/-- Nobody waits who could run. -/
def Settled (cs : List (Call ι κ)) : Prop :=
  ∀ c ∈ cs, c.status = .waiting → ¬Free limit perPeer cs c.lane c.peer

variable (limit perPeer) in
/-- The call starts that came first among those of its lane that could run. -/
inductive Starts (cs : List (Call ι κ)) : List (Call ι κ) → Prop
  | first {i : ℕ} {c : Call ι κ} (hc : cs[i]? = some c) (hwaits : c.status = .waiting)
      (hfree : Free limit perPeer cs c.lane c.peer)
      (hfirst : ∀ j < i, ∀ d, cs[j]? = some d → d.status = .waiting → d.lane = c.lane →
        ¬Free limit perPeer cs d.lane d.peer) : Starts cs (cs.set i { c with status := .running })

/-! ### Counts -/

omit [DecidableEq κ] in
theorem inLane_set (hc : cs[i]? = some c) :
    inLane (cs.set i d) l + (c.runsIn l).toNat = inLane cs l + (d.runsIn l).toNat :=
  Leases.countP_set hc

omit [DecidableEq ι] in
theorem atPeer_set (hc : cs[i]? = some c) :
    atPeer (cs.set i d) p + (c.runsAt p).toNat = atPeer cs p + (d.runsAt p).toNat :=
  Leases.countP_set hc

omit [DecidableEq κ] in
theorem inLane_start (hc : cs[i]? = some c) (hwaits : c.status = .waiting) :
    inLane (cs.set i { c with status := .running }) l = inLane cs l + if c.lane = l then 1 else 0 := by
  have h := inLane_set (l := l) (d := { c with status := .running }) hc
  by_cases hl : c.lane = l <;> simpa [Call.runsIn, hwaits, hl] using h

omit [DecidableEq ι] in
theorem atPeer_start (hc : cs[i]? = some c) (hwaits : c.status = .waiting) :
    atPeer (cs.set i { c with status := .running }) p = atPeer cs p + if c.peer = p then 1 else 0 := by
  have h := atPeer_set (p := p) (d := { c with status := .running }) hc
  by_cases hp : c.peer = p <;> simpa [Call.runsAt, hwaits, hp] using h

/-! ### Starts -/

theorem Starts.within (h : Starts limit perPeer cs ds) (hcs : Within limit perPeer cs) :
    Within limit perPeer ds := by
  obtain ⟨hc, hwaits, ⟨hlane, hpeer⟩, -⟩ := h
  constructor
  · intro l
    rw [inLane_start hc hwaits]
    split
    · subst l
      omega
    · exact hcs.lane l
  · intro p
    rw [atPeer_start hc hwaits]
    split
    · subst p
      omega
    · exact hcs.peer p

/-- Whoever cannot run cannot run after the start of another. -/
theorem Starts.blocks (h : Starts limit perPeer cs ds) (hblocked : ¬Free limit perPeer cs l p) :
    ¬Free limit perPeer ds l p := by
  obtain ⟨hc, hwaits, -, -⟩ := h
  rintro ⟨hlane, hpeer⟩
  rw [inLane_start hc hwaits] at hlane
  rw [atPeer_start hc hwaits] at hpeer
  exact hblocked ⟨by omega, by omega⟩

theorem within_of_starts (h : Relation.ReflTransGen (Starts limit perPeer) cs ds)
    (hcs : Within limit perPeer cs) : Within limit perPeer ds := by
  induction h with
  | refl => exact hcs
  | tail _ hstep ih => exact hstep.within ih

theorem blocked_of_starts (h : Relation.ReflTransGen (Starts limit perPeer) cs ds)
    (hblocked : ¬Free limit perPeer cs l p) : ¬Free limit perPeer ds l p := by
  induction h with
  | refl => exact hblocked
  | tail _ hstep ih => exact hstep.blocks ih

/-! ### The other changes -/

/-- Fewer calls run. -/
theorem Within.of_le (hcs : Within limit perPeer cs) (hlane : ∀ l, inLane ds l ≤ inLane cs l)
    (hpeer : ∀ p, atPeer ds p ≤ atPeer cs p) : Within limit perPeer ds :=
  ⟨fun l => (hlane l).trans (hcs.lane l), fun p => (hpeer p).trans (hcs.peer p)⟩

omit [DecidableEq κ] in
/-- A call leaves: what it had is free. -/
theorem inLane_leave (hc : cs[i]? = some c) (hd : d.status ≠ .running) :
    inLane (cs.set i d) l + (c.runsIn l).toNat = inLane cs l := by
  have h := inLane_set (l := l) (d := d) hc
  simpa [Call.runsIn, hd] using h

omit [DecidableEq ι] in
theorem atPeer_leave (hc : cs[i]? = some c) (hd : d.status ≠ .running) :
    atPeer (cs.set i d) p + (c.runsAt p).toNat = atPeer cs p := by
  have h := atPeer_set (p := p) (d := d) hc
  simpa [Call.runsAt, hd] using h

end Slots
