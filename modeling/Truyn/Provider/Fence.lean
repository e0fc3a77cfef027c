import Truyn.Provider.Host
import Truyn.Schemes.Along

/-! provider:fence | after the requester's REVOKE nothing is executed or answered

    Every start of the adapter and every terminal comes after a look at the signal with no answer
    awaited in between, but for the start after the second check of a paid NEED
    (`executeNeed_safe`). The host keeps a tombstone for a NEED that it does not hold, and aborts
    those that it does; another sender's REVOKE of the same NEED replaces the tombstone, and
    `runOnce` looks at none (`cancellation_fenced`). -/

namespace Truyn.Provider
open Fences Runs

def Asked.visible : Asked → Bool
  | .execute _ | .sendTerminal _ _ => true
  | _ => false

/-- What a host shows of an execution: the start of the adapter, and the terminal. -/
def Visible (a : Asked) : Prop := a.visible = true

variable {preserve drained : Bool} {a : Asked} {input : JsString} {s' : State} {l : List ℕ}
  {d : Stop} {w : Answers} {e : Event}

theorem hidden (ha : a.visible = false) : ¬Visible a := by
  rw [Visible, ha]
  exact Bool.false_ne_true

/-- A paid NEED is found good a second time. -/
def Loose : Asked → Answers → Prop
  | .verifyPaidNeedAgain, w => w.paid.isOk = true
  | _, _ => False

variable {h : Settings} {n : Need} {billing : Option Billing} {next : Option Settlement → Program}
  {p : Program}

/-! ### Executions -/

theorem settleBilling_safe {outcome : BillingOutcome} {tokens : ℕ} {reason : Option Reason}
    (hnext : ∀ x, Safe Visible Loose (next x)) :
    Safe Visible Loose (settleBilling billing outcome tokens reason next) := by
  unfold settleBilling
  split
  · refine .ask (hidden rfl) fun w => ?_
    split
    · exact hnext _
    · exact hnext _
  · exact .ask (hidden rfl) fun _ => hnext none

theorem refuse_safe {metadata : Metadata} : Safe Visible Loose (refuse metadata) :=
  .ifAborted silent_done (.ask fun _ => .done)

theorem finishEffect_safe {outcome : EffectOutcome} {observed : Option ℕ}
    {thrown : JsString → Program} (hthrown : ∀ message, Safe Visible Loose (thrown message))
    (hp : Safe Visible Loose p) :
    Safe Visible Loose (finishEffect h n outcome observed thrown p) := by
  unfold finishEffect
  split
  · refine .ask (hidden rfl) fun w => ?_
    split
    · exact hp
    · exact hthrown _
  · exact hp

theorem caught_safe {settled : Bool} {message : JsString} :
    Safe Visible Loose (caught h n billing settled message) := by
  unfold caught
  dsimp only
  split
  · exact .ask (hidden rfl) fun _ => .done
  · split
    · exact .ifAborted refuse_safe.silent refuse_safe.fenced
    · exact .ifAborted (settleBilling_safe fun _ => refuse_safe).silent
        (settleBilling_safe fun _ => refuse_safe).fenced

variable {refs : Option ℕ} {id' : NeedId} {requester' : NodeId}

theorem finish_fenced {output : JsString} {settlement : Option Settlement} :
    Fenced Visible Loose (finish h n billing refs output settlement) := by
  refine Fenced.ask fun w => ?_
  split
  · exact .done
  · exact caught_safe

theorem afterExecution_safe {e : Execution} :
    Safe Visible Loose (afterExecution h n billing refs e) := by
  refine finishEffect_safe (fun _ => caught_safe) (.ifAborted ?_ ?_)
  · exact (settleBilling_safe fun _ => .done).silent
  · exact (settleBilling_safe fun _ => .ifAborted silent_done finish_fenced).fenced

theorem execute_fenced :
    Fenced Visible Loose (execute h n billing refs input) := by
  refine Fenced.ask fun w => ?_
  split
  · exact afterExecution_safe
  · exact caught_safe

/-- The start of the adapter is fenced, but for a second check of a paid NEED. -/
theorem withInput_safe :
    Safe Visible Loose (withInput h n billing refs input) := by
  refine .ifAborted (settleBilling_safe fun _ => .done).silent ?_
  split
  · intro w
    dsimp only
    cases hpaid : w.paid with
    | ok u =>
      have hloose : Loose .verifyPaidNeedAgain w := by
        rw [Loose, hpaid]
        rfl
      exact ⟨fun hw => absurd hloose hw, execute_fenced⟩
    | error e => exact ⟨fun _ => caught_safe.silent, caught_safe.fenced⟩
  · exact execute_fenced

theorem attempt_safe : Safe Visible Loose (attempt h n billing) := by
  refine .ifAborted ?_ ?_
  · exact (finishEffect_safe (fun _ => .done) (settleBilling_safe fun _ => .done)).silent
  · split
    · refine Fenced.ask fun w => ?_
      split
      · exact withInput_safe
      · exact caught_safe
    · exact withInput_safe.fenced

theorem authorizeBilling_safe : Safe Visible Loose (authorizeBilling h n) := by
  unfold authorizeBilling
  split
  · exact attempt_safe
  · refine .ask (hidden rfl) fun w => ?_
    split
    · exact .done
    · split
      · exact attempt_safe
      · exact finishEffect_safe (fun _ => .done) refuse_safe

theorem beginEffect_safe : Safe Visible Loose (beginEffect h n) := by
  unfold beginEffect
  split
  · refine .ask (hidden rfl) fun w => ?_
    split
    · exact authorizeBilling_safe
    · exact .done
  · exact authorizeBilling_safe

theorem verifyPaidNeed_safe : Safe Visible Loose (verifyPaidNeed h n) := by
  unfold verifyPaidNeed
  split
  · refine .ask (hidden rfl) fun w => ?_
    split
    · exact beginEffect_safe
    · exact refuse_safe
  · exact beginEffect_safe

theorem executeNeed_safe : Safe Visible Loose (executeNeed h n) := by
  unfold executeNeed
  split
  · refine .ask (hidden rfl) fun w => ?_
    split
    · exact .done
    · exact verifyPaidNeed_safe
    · exact refuse_safe
  · exact .done

/-! ### The host -/

/-- An execution that goes on after its signal rose shows nothing more, unless by a loose answer. -/
def Task.Held (t : Task) : Prop :=
  ∀ a next, t.stage = .asking a next → ∀ w,
    (¬Loose a w → Silent Visible (next w)) ∧ (t.aborted = false → Fenced Visible Loose (next w))

def Task.live (t : Task) : Bool :=
  match t.stage with
  | .asking _ _ => true
  | _ => false

def Task.verifiesAgain (t : Task) : Bool :=
  match t.stage with
  | .asking .verifyPaidNeedAgain _ => true
  | _ => false

/-- The host holds what goes on and is not aborted; what waits is not held, and waits once. -/
structure Inv (s : State) : Prop where
  held : ∀ t ∈ s.tasks, t.Held
  flying : ∀ k t, s.tasks[k]? = some t → t.tracked = true → t.aborted = false → t.live = true →
    Maps.get s.inFlight t.need.id = some k
  pending : (s.pendingNeeds.map Need.id).Nodup
  listed : ∀ n ∈ s.pendingNeeds, n.id ∈ s.pendingNeedIds
  waiting : ∀ n ∈ s.pendingNeeds, Maps.get s.inFlight n.id = none
  stones : (s.cancelledNeedIds.map Prod.fst).Nodup
  held_lt : ∀ p ∈ s.inFlight, p.2 < s.tasks.length
  stopping : ∀ d ∈ s.stops, ∀ k ∈ d.states, ∃ t, s.tasks[k]? = some t ∧ t.aborted = true

/-- A NEED is revoked: its tombstone is among the last `behind` ones, nothing of it waits or goes on
    unaborted, and after what was shown `before`, nothing more of it was. -/
structure Cut (id : NeedId) (requester : NodeId) (before : List (Need × Asked)) (behind : ℕ)
    (s : State) : Prop where
  stone : ∃ older newer, s.cancelledNeedIds = older ++ (id, requester) :: newer ∧
    newer.length ≤ behind
  waits : ∀ n ∈ s.pendingNeeds, n.isOf id requester = false
  dead : ∀ t ∈ s.tasks, t.need.isOf id requester = true → t.live = true → t.aborted = true
  shown : ∃ later, s.log = before ++ later ∧
    ∀ e ∈ later, e.1.isOf id requester = true → ¬Visible e.2

variable {s : State} {k : ℕ} {t : Task} {id : NeedId} {requester : NodeId}
  {before : List (Need × Asked)} {behind : ℕ}

theorem Cut.get (hI : Inv s) (hC : Cut id requester before behind s) :
    Maps.get s.cancelledNeedIds id = some requester := by
  obtain ⟨older, newer, heq, -⟩ := hC.stone
  refine Maps.get_of_mem hI.stones ?_
  rw [heq]
  exact List.mem_append_right older List.mem_cons_self

/-- A NEED without the tombstone is not the one that is revoked. -/
theorem Cut.other (hI : Inv s) (hC : Cut id requester before behind s)
    (hn : Maps.get s.cancelledNeedIds n.id ≠ some n.from_) : n.isOf id requester = false := by
  by_contra hof
  obtain ⟨rfl, rfl⟩ : n.id = id ∧ n.from_ = requester := by simpa [Need.isOf] using hof
  exact hn (hC.get hI)

theorem Task.held_of_not_live (ht : t.live = false) : t.Held := by
  intro a next hstage
  rw [Task.live, hstage] at ht
  cases ht

/-! ### Executions that go on -/

/-- What an execution becomes by going on with `p`. -/
def Task.after (t : Task) (p : Program) : Task :=
  match p.go t.aborted with
  | some (a, next) => { t with stage := .asking a next }
  | none => { t with stage := if t.tracked then .ended else .closed }

theorem proceed_eq : s.proceed k t p =
    { s with
      tasks := s.tasks.set k (t.after p)
      log := s.log ++ ((p.go t.aborted).map fun q => (t.need, q.1)).toList } := by
  unfold State.proceed Task.after
  cases p.go t.aborted with
  | none => simp
  | some q => simp

theorem Task.after_live (hlive : (t.after p).live = true) :
    ∃ a next, p.go t.aborted = some (a, next) ∧ (t.after p).stage = .asking a next := by
  unfold Task.after at hlive ⊢
  cases hgo : p.go t.aborted with
  | none =>
    rw [hgo] at hlive
    dsimp only at hlive
    cases htracked : t.tracked <;> simp [htracked, Task.live] at hlive
  | some q => exact ⟨q.1, q.2, rfl, rfl⟩

@[simp] theorem Task.after_need : (t.after p).need = t.need := by
  unfold Task.after
  split <;> rfl

@[simp] theorem Task.after_tracked : (t.after p).tracked = t.tracked := by
  unfold Task.after
  split <;> rfl

@[simp] theorem Task.after_aborted : (t.after p).aborted = t.aborted := by
  unfold Task.after
  split <;> rfl

/-- Going on as the signal allows keeps an execution in order. -/
theorem Task.after_held (hup : t.aborted = true → Silent Visible p)
    (hdown : t.aborted = false → Fenced Visible Loose p) : (t.after p).Held := by
  intro a next hstage w
  obtain ⟨b, rest, hgo, hrest⟩ := Task.after_live (t := t) (p := p) (by rw [Task.live, hstage])
  obtain ⟨rfl, rfl⟩ : b = a ∧ rest = next := by
    rw [hrest] at hstage
    injection hstage with ha hnext
    exact ⟨ha, hnext⟩
  rw [Task.after_aborted]
  cases hab : t.aborted with
  | true =>
    rw [hab] at hgo
    have hnext := ((hup hab).go hgo).2 w
    exact ⟨fun _ => hnext, fun hfalse => by cases hfalse⟩
  | false =>
    rw [hab] at hgo
    have hnext := (hdown hab).go hgo w
    exact ⟨hnext.1, fun _ => hnext.2⟩

/-- An execution changes where it is. -/
theorem Inv.setTask {u : Task} (hI : Inv s) (hk : s.tasks[k]? = some t)
    (hab : u.aborted = t.aborted) (hheld : u.Held)
    (hflying : u.tracked = true → u.aborted = false → u.live = true →
      Maps.get s.inFlight u.need.id = some k) : Inv { s with tasks := s.tasks.set k u } := by
  have hlt : k < s.tasks.length := (List.getElem_of_getElem? hk).1
  refine { hI with held := ?_, flying := ?_, held_lt := ?_, stopping := ?_ }
  · intro v hv
    rcases List.mem_or_eq_of_mem_set hv with hv | rfl
    · exact hI.held v hv
    · exact hheld
  · intro j v hv htracked hvab hlive
    dsimp only at hv
    rw [List.getElem?_set] at hv
    split at hv
    · next hjk =>
      subst hjk
      cases hv
      exact hflying htracked hvab hlive
    · exact hI.flying j v hv htracked hvab hlive
  · intro q hq
    dsimp only
    rw [List.length_set]
    exact hI.held_lt q hq
  · intro d hd j hj
    obtain ⟨v, hv, hvab⟩ := hI.stopping d hd j hj
    dsimp only
    rw [List.getElem?_set]
    split
    · next hjk =>
      subst hjk
      cases hk.symm.trans hv
      exact ⟨u, rfl, hab.trans hvab⟩
    · exact ⟨v, hv, hvab⟩

theorem Inv.proceed (hI : Inv s) (hk : s.tasks[k]? = some t)
    (hflying : t.tracked = true → t.aborted = false → Maps.get s.inFlight t.need.id = some k)
    (hup : t.aborted = true → Silent Visible p)
    (hdown : t.aborted = false → Fenced Visible Loose p) : Inv (s.proceed k t p) := by
  have hset := hI.setTask (u := t.after p) hk Task.after_aborted (Task.after_held hup hdown)
    (fun htracked hab _ => by
      rw [Task.after_need]
      exact hflying (by simpa using htracked) (by simpa using hab))
  rw [proceed_eq]
  exact { hset with }

theorem Cut.proceed (hC : Cut id requester before behind s)
    (hdead : t.need.isOf id requester = true → t.aborted = true)
    (hshown : t.need.isOf id requester = true → Silent Visible p) :
    Cut id requester before behind (s.proceed k t p) := by
  rw [proceed_eq]
  refine { hC with dead := ?_, shown := ?_ }
  · intro u hu hof hlive
    rcases List.mem_or_eq_of_mem_set hu with hu | rfl
    · exact hC.dead u hu hof hlive
    · rw [Task.after_aborted]
      exact hdead (by simpa using hof)
  · obtain ⟨later, hlog, hlater⟩ := hC.shown
    refine ⟨later ++ ((p.go t.aborted).map fun q => (t.need, q.1)).toList, ?_, ?_⟩
    · dsimp only
      rw [hlog, List.append_assoc]
    · intro e he hof
      rcases List.mem_append.mp he with he | he
      · exact hlater e he hof
      · obtain ⟨q, hq, rfl⟩ := Option.map_eq_some_iff.mp (Option.mem_toList.mp he)
        rw [hdead hof] at hq
        exact ((hshown hof).go hq).1

/-! ### Executions that start, wait and end -/

theorem of_getElem?_concat {u : Task} (hu : (s.tasks ++ [t])[k]? = some u) :
    s.tasks[k]? = some u ∨ k = s.tasks.length ∧ u = t := by
  rcases Nat.lt_or_ge k s.tasks.length with hlt | hge
  · exact .inl (by rwa [List.getElem?_append_left hlt] at hu)
  · rw [List.getElem?_append_right hge] at hu
    obtain ⟨hlt, rfl⟩ := List.getElem_of_getElem? hu
    rw [List.length_singleton] at hlt
    exact .inr ⟨by omega, by simp⟩

theorem Inv.startNeed (hI : Inv s) (hfree : Maps.get s.inFlight n.id = none)
    (hout : ∀ m ∈ s.pendingNeeds, m.id ≠ n.id) : Inv (startNeed h n s) := by
  refine { hI with held := ?_, flying := ?_, waiting := ?_, held_lt := ?_, stopping := ?_ }
  · intro u hu
    rcases List.mem_append.mp hu with hu | hu
    · exact hI.held u hu
    · obtain rfl := List.mem_singleton.mp hu
      intro a next hstage w
      injection hstage with ha hnext
      subst hnext
      exact ⟨fun _ => executeNeed_safe.silent, fun _ => executeNeed_safe.fenced⟩
  · intro j u hu htracked hab hlive
    rcases of_getElem?_concat hu with hu | ⟨rfl, rfl⟩
    · have hj := hI.flying j u hu htracked hab hlive
      have hne : n.id ≠ u.need.id := by
        intro heq
        rw [← heq, hfree] at hj
        cases hj
      exact (Maps.get_set_ne hne).trans hj
    · exact Maps.get_set_self
  · intro m hm
    exact (Maps.get_set_ne (hout m hm).symm).trans (hI.waiting m hm)
  · intro q hq
    rw [Provider.startNeed, List.length_append, List.length_singleton]
    rcases Maps.mem_set hq with rfl | hq
    · exact Nat.lt_succ_self _
    · exact (hI.held_lt q hq).trans (Nat.lt_succ_self _)
  · intro d hd j hj
    obtain ⟨u, hu, hab⟩ := hI.stopping d hd j hj
    exact ⟨u, (List.getElem?_append_left (List.getElem_of_getElem? hu).1).trans hu, hab⟩

theorem Cut.startNeed (hC : Cut id requester before behind s) (hn : n.isOf id requester = false) :
    Cut id requester before behind (startNeed h n s) := by
  refine { hC with dead := ?_ }
  intro u hu hof hlive
  rcases List.mem_append.mp hu with hu | hu
  · exact hC.dead u hu hof hlive
  · obtain rfl := List.mem_singleton.mp hu
    rw [hn] at hof
    cases hof

theorem Inv.enqueueNeed (hI : Inv s) (hfree : Maps.get s.inFlight n.id = none)
    (hout : n.id ∉ s.pendingNeedIds) : Inv (enqueueNeed n s) := by
  refine { hI with pending := ?_, listed := ?_, waiting := ?_ }
  · dsimp only [Provider.enqueueNeed]
    rw [List.map_append, List.nodup_append]
    refine ⟨hI.pending, List.nodup_singleton _, ?_⟩
    rintro x hx y hy rfl
    obtain ⟨m, hm, rfl⟩ := List.mem_map.mp hx
    obtain heq : m.id = n.id := List.mem_singleton.mp hy
    exact hout (heq ▸ hI.listed m hm)
  · intro m hm
    rcases List.mem_append.mp hm with hm | hm
    · by_cases heq : m.id = n.id
      · exact List.mem_cons.mpr (.inl heq)
      · exact List.mem_cons_of_mem _ (List.mem_filter.mpr ⟨hI.listed m hm, by simpa using heq⟩)
    · obtain rfl := List.mem_singleton.mp hm
      exact List.mem_cons_self
  · intro m hm
    rcases List.mem_append.mp hm with hm | hm
    · exact hI.waiting m hm
    · obtain rfl := List.mem_singleton.mp hm
      exact hfree

theorem Cut.enqueueNeed (hC : Cut id requester before behind s)
    (hn : n.isOf id requester = false) : Cut id requester before behind (enqueueNeed n s) := by
  refine { hC with waits := ?_ }
  intro m hm
  rcases List.mem_append.mp hm with hm | hm
  · exact hC.waits m hm
  · obtain rfl := List.mem_singleton.mp hm
    exact hn

theorem Cut.reject (hC : Cut id requester before behind s) (hn : n.isOf id requester = false) :
    Cut id requester before behind (rejectNeedOverCapacity n s) := by
  obtain ⟨later, hlog, hlater⟩ := hC.shown
  unfold rejectNeedOverCapacity
  dsimp only
  generalize Asked.sendTerminal _ _ = a
  refine { hC with shown := ⟨later ++ [(n, a)], ?_, ?_⟩ }
  · dsimp only
    rw [hlog, List.append_assoc]
  · intro e he hof
    rcases List.mem_append.mp he with he | he
    · exact hlater e he hof
    · obtain rfl := List.mem_singleton.mp he
      rw [hn] at hof
      cases hof

/-- The first NEED that waits no longer does. -/
def dequeue (n : Need) (rest : List Need) (s : State) : State :=
  { s with pendingNeeds := rest, pendingNeedIds := s.pendingNeedIds.filter (· ≠ n.id) }

theorem drain_induct {P : State → Prop}
    (hskip : ∀ s n rest, s.pendingNeeds = n :: rest → P s →
      Maps.get s.cancelledNeedIds n.id = some n.from_ → P (dequeue n rest s))
    (hstart : ∀ s n rest, s.pendingNeeds = n :: rest → P s →
      Maps.get s.cancelledNeedIds n.id ≠ some n.from_ → P (startNeed h n (dequeue n rest s)))
    (hs : P s) : P (drainPendingNeeds h s) := by
  have hall : ∀ l s, P { s with pendingNeeds := l } → P (drainFrom h l s) := by
    intro l
    induction l with
    | nil => exact fun s hs => hs
    | cons n rest ih =>
      intro s hs
      rw [drainFrom]
      split
      · dsimp only
        split
        · next hstone => exact ih _ (hskip _ n rest rfl hs hstone)
        · next hstone => exact ih _ (hstart _ n rest rfl hs hstone)
      · exact hs
  exact hall s.pendingNeeds s hs

theorem Inv.dequeue {rest : List Need} (hI : Inv s) (hs : s.pendingNeeds = n :: rest) :
    Inv (dequeue n rest s) ∧ Maps.get s.inFlight n.id = none ∧ ∀ m ∈ rest, m.id ≠ n.id := by
  have hpending := hI.pending
  rw [hs, List.map_cons, List.nodup_cons] at hpending
  have hmem : ∀ m ∈ rest, m ∈ s.pendingNeeds := fun m hm => by
    rw [hs]
    exact List.mem_cons_of_mem n hm
  have hout : ∀ m ∈ rest, m.id ≠ n.id := fun m hm heq =>
    hpending.1 (heq ▸ List.mem_map_of_mem hm)
  refine ⟨{ hI with pending := hpending.2, listed := ?_, waiting := ?_ }, ?_, hout⟩
  · intro m hm
    exact List.mem_filter.mpr ⟨hI.listed m (hmem m hm), by simpa using hout m hm⟩
  · exact fun m hm => hI.waiting m (hmem m hm)
  · exact hI.waiting n (by rw [hs]; exact List.mem_cons_self)

theorem Inv.drain (hI : Inv s) : Inv (drainPendingNeeds h s) := by
  refine drain_induct (fun s n rest hs hI _ => (hI.dequeue hs).1) (fun s n rest hs hI _ => ?_) hI
  obtain ⟨hI', hfree, hout⟩ := hI.dequeue hs
  exact hI'.startNeed hfree hout

theorem Cut.drain (hI : Inv s) (hC : Cut id requester before behind s) :
    Cut id requester before behind (drainPendingNeeds h s) := by
  have hdequeue : ∀ (s : State) n rest, s.pendingNeeds = n :: rest →
      Cut id requester before behind s → Cut id requester before behind (dequeue n rest s) := by
    intro s n rest hs hC
    refine { hC with waits := fun m hm => hC.waits m ?_ }
    rw [hs]
    exact List.mem_cons_of_mem n hm
  suffices hboth : Inv (drainPendingNeeds h s) ∧
      Cut id requester before behind (drainPendingNeeds h s) from hboth.2
  refine drain_induct (P := fun s => Inv s ∧ Cut id requester before behind s)
    (fun s n rest hs hP _ => ⟨(hP.1.dequeue hs).1, hdequeue s n rest hs hP.2⟩)
    (fun s n rest hs hP hstone => ?_) ⟨hI, hC⟩
  obtain ⟨hI', hfree, hout⟩ := hP.1.dequeue hs
  exact ⟨hI'.startNeed hfree hout,
    (hdequeue s n rest hs hP.2).startNeed (hP.2.other hP.1 hstone)⟩

theorem Inv.release (hI : Inv s)
    (hdead : ∀ t, s.tasks[k]? = some t → t.live = true → t.aborted = true) :
    Inv (release k s) := by
  unfold Provider.release
  split
  · exact hI
  next t ht =>
  split
  · next hheld =>
    refine { hI with flying := ?_, waiting := ?_, held_lt := ?_ }
    · intro j u hu htracked hab hlive
      have hj := hI.flying j u hu htracked hab hlive
      rw [Maps.get_delete]
      split
      · next heq =>
        rw [← heq, hheld] at hj
        cases hj
        rw [hdead u hu hlive] at hab
        cases hab
      · exact hj
    · intro m hm
      rw [Maps.get_delete, hI.waiting m hm]
      split <;> rfl
    · exact fun p hp => hI.held_lt p (Maps.mem_delete hp)
  · exact hI

theorem Cut.release (hC : Cut id requester before behind s) :
    Cut id requester before behind (release k s) := by
  unfold Provider.release
  split
  · exact hC
  · split
    · exact { hC with }
    · exact hC

theorem Inv.requeue (hI : Inv s) : Inv (requeue k s) := by
  unfold Provider.requeue
  split
  · exact hI
  · split
    · exact hI
    · next hout =>
      rw [not_or, not_or, Bool.not_eq_true, Option.isSome_eq_false_iff, Option.isNone_iff_eq_none]
        at hout
      exact hI.enqueueNeed hout.2.1 hout.2.2

theorem Cut.requeue (hI : Inv s) (hC : Cut id requester before behind s) :
    Cut id requester before behind (requeue k s) := by
  unfold Provider.requeue
  split
  · exact hC
  · split
    · exact hC
    · next hout =>
      rw [not_or] at hout
      exact hC.enqueueNeed (hC.other hI hout.1)

/-! ### Signals -/

theorem getElem?_abort {j : ℕ} : (s.abort k).tasks[j]? =
    if k = j then s.tasks[j]?.map fun t => { t with aborted := true } else s.tasks[j]? := by
  rw [State.abort, List.getElem?_modify]
  split <;> simp

/-- An execution may be aborted: it is in order, and nothing was live that was not before. -/
theorem mem_abort (ht : t ∈ (s.abort k).tasks) : ∃ u ∈ s.tasks, u.need = t.need ∧
    u.stage = t.stage ∧ u.tracked = t.tracked ∧ (t.aborted = true ∨ t = u) := by
  obtain ⟨j, hj⟩ := List.getElem?_of_mem ht
  rw [getElem?_abort] at hj
  split at hj
  · obtain ⟨u, hu, rfl⟩ := Option.map_eq_some_iff.mp hj
    exact ⟨u, List.mem_of_getElem? hu, rfl, rfl, rfl, .inl rfl⟩
  · exact ⟨t, List.mem_of_getElem? hj, rfl, rfl, rfl, .inr rfl⟩

theorem Inv.abort (hI : Inv s) : Inv (s.abort k) := by
  have hlength : (s.abort k).tasks.length = s.tasks.length := List.length_modify _ _ _
  refine { hI with held := ?_, flying := ?_, held_lt := ?_, stopping := ?_ }
  · intro t ht a next hstage w
    obtain ⟨u, hu, -, hus, -, hab⟩ := mem_abort ht
    have hheld := hI.held u hu a next (hus.trans hstage) w
    rcases hab with hab | rfl
    · exact ⟨hheld.1, fun hfalse => by rw [hab] at hfalse; cases hfalse⟩
    · exact hheld
  · intro j t ht htracked hab hlive
    rw [getElem?_abort] at ht
    split at ht
    · obtain ⟨u, -, rfl⟩ := Option.map_eq_some_iff.mp ht
      cases hab
    · exact hI.flying j t ht htracked hab hlive
  · intro p hp
    rw [hlength]
    exact hI.held_lt p hp
  · intro d hd j hj
    obtain ⟨t, ht, hab⟩ := hI.stopping d hd j hj
    rw [getElem?_abort, ht]
    split
    · exact ⟨_, rfl, rfl⟩
    · exact ⟨t, rfl, hab⟩

theorem Cut.abort (hC : Cut id requester before behind s) :
    Cut id requester before behind (s.abort k) := by
  refine { hC with dead := ?_ }
  intro t ht hof hlive
  obtain ⟨u, hu, hneed, hstage, -, hab | rfl⟩ := mem_abort ht
  · exact hab
  · exact hC.dead t hu hof hlive

/-! ### Tombstones -/

theorem evict_append {max : ℕ} {A B : List (NeedId × NodeId)} (hB : B.length ≤ max) :
    ∃ C, C <:+ A ∧ evict max (A ++ B) = C ++ B := by
  induction A with
  | nil =>
    refine ⟨[], List.suffix_refl _, ?_⟩
    cases B with
    | nil => rfl
    | cons e es =>
      rw [List.length_cons] at hB
      rw [List.nil_append, evict, if_neg (not_lt.mpr hB)]
  | cons a A ih =>
    obtain ⟨C, hC, heq⟩ := ih
    rw [List.cons_append, evict]
    split
    · exact ⟨C, hC.trans (List.suffix_cons a A), heq⟩
    · exact ⟨a :: A, List.suffix_refl _, rfl⟩

theorem Inv.remember (hI : Inv s) : Inv (rememberCancellation h id requester s) := by
  refine { hI with stones := ?_ }
  have hpos : ([(id, requester)] : List (NeedId × NodeId)).length ≤ h.maxCancellationTombstones :=
    h.tombstones_pos
  obtain ⟨C, hC, heq⟩ := evict_append (A := Maps.delete id s.cancelledNeedIds) hpos
  dsimp only [rememberCancellation]
  rw [heq, List.map_append, List.nodup_append]
  refine ⟨(hC.sublist.map Prod.fst).nodup (Maps.nodup_delete hI.stones), List.nodup_singleton _, ?_⟩
  rintro x hx y hy rfl
  obtain ⟨q, hq, rfl⟩ := List.mem_map.mp hx
  have hne : q.1 ≠ id := by simpa using (List.mem_filter.mp (hC.subset hq)).2
  exact hne (List.mem_singleton.mp hy)

/-- The tombstone that was just set is the newest. -/
theorem remember_newest (h : Settings) (id : NeedId) (requester : NodeId) (s : State) : ∃ older,
    (rememberCancellation h id requester s).cancelledNeedIds = older ++ [(id, requester)] := by
  obtain ⟨C, -, heq⟩ := evict_append (A := Maps.delete id s.cancelledNeedIds)
    (B := [(id, requester)]) h.tombstones_pos
  exact ⟨C, heq⟩

/-- Another revocation, of another NEED or by the same requester, leaves the tombstone. -/
theorem Cut.remember (hI : Inv s) (hC : Cut id requester before behind s)
    (hsame : ∀ f, Maps.get s.cancelledNeedIds id' = some f → f = requester')
    (hfew : behind + 1 < h.maxCancellationTombstones) :
    Cut id requester before (behind + 1) (rememberCancellation h id' requester' s) := by
  refine { hC with stone := ?_ }
  by_cases hid : id' = id
  · subst hid
    obtain rfl := hsame requester (hC.get hI)
    obtain ⟨older, heq⟩ := remember_newest h id' requester s
    exact ⟨older, [], heq, Nat.zero_le _⟩
  · obtain ⟨older, newer, heq, hbehind⟩ := hC.stone
    have hkept : Maps.delete id' s.cancelledNeedIds ++ [(id', requester')] =
        Maps.delete id' older ++ ((id, requester) :: (Maps.delete id' newer ++ [(id', requester')])) := by
      rw [heq, Maps.delete, Maps.delete, Maps.delete, List.filter_append,
        List.filter_cons_of_pos (by simpa using fun h => hid h.symm), List.append_assoc,
        List.cons_append]
    have hlength : (Maps.delete id' newer ++ [(id', requester')]).length ≤ behind + 1 := by
      rw [List.length_append, List.length_singleton]
      exact Nat.succ_le_succ ((List.length_filter_le _ _).trans hbehind)
    have hroom : ((id, requester) :: (Maps.delete id' newer ++ [(id', requester')])).length ≤
        h.maxCancellationTombstones := by
      rw [List.length_cons]
      omega
    obtain ⟨C, -, hevict⟩ := evict_append (A := Maps.delete id' older) hroom
    refine ⟨C, _, ?_, hlength⟩
    dsimp only [rememberCancellation]
    rw [hkept, hevict]

/-! ### Revocations -/

/-- The NEED that is taken from those that wait is the only one with its id. -/
theorem Inv.cancelPending (hI : Inv s) (hs : cancelPendingNeed id requester s = some s') :
    Inv s' ∧ Maps.get s.inFlight id = none ∧ ∀ n ∈ s'.pendingNeeds, n.id ≠ id := by
  unfold cancelPendingNeed at hs
  split at hs
  · next hany =>
    cases hs
    obtain ⟨a, ha, hof⟩ := List.any_eq_true.mp hany
    obtain ⟨b, l₁, l₂, -, hb, hl, herase⟩ :=
      List.exists_of_eraseP (p := fun n => n.isOf id requester) ha hof
    obtain ⟨rfl, -⟩ : b.id = id ∧ b.from_ = requester := by simpa [Need.isOf] using hb
    have hb' : b ∈ s.pendingNeeds := by
      rw [hl]
      exact List.mem_append_right l₁ List.mem_cons_self
    have hsub : ∀ n ∈ l₁ ++ l₂, n ∈ s.pendingNeeds := by
      intro n hn
      rw [hl]
      exact ((List.sublist_cons_self b l₂).append_left l₁).subset hn
    have hpending := hI.pending
    rw [hl, List.map_append, List.map_cons, List.nodup_middle, List.nodup_cons] at hpending
    have hout : ∀ n ∈ l₁ ++ l₂, n.id ≠ b.id := by
      intro n hn heq
      refine hpending.1 ?_
      rw [← heq, ← List.map_append]
      exact List.mem_map_of_mem hn
    rw [herase]
    refine ⟨{ hI with pending := ?_, listed := ?_, waiting := ?_ }, hI.waiting b hb', hout⟩
    · dsimp only
      rw [List.map_append]
      exact hpending.2
    · intro n hn
      exact List.mem_filter.mpr ⟨hI.listed n (hsub n hn), by simpa using hout n hn⟩
    · exact fun n hn => hI.waiting n (hsub n hn)
  · cases hs

theorem Cut.cancelPending (hC : Cut id requester before behind s)
    (hs : cancelPendingNeed id' requester' s = some s') : Cut id requester before behind s' := by
  unfold cancelPendingNeed at hs
  split at hs
  · cases hs
    exact { hC with waits := fun n hn => hC.waits n (List.mem_of_mem_eraseP hn) }
  · cases hs

theorem Inv.revoke (hI : Inv s) : Inv (revoke h id requester s) := by
  have hI' : Inv (rememberCancellation h id requester s) := hI.remember
  unfold Provider.revoke
  dsimp only
  split
  · next s' hs => exact (hI'.cancelPending hs).1
  · split
    · exact hI'
    · split
      · exact hI'.abort
      · exact hI'

theorem Cut.revoke (hI : Inv s) (hC : Cut id requester before behind s)
    (hsame : ∀ f, Maps.get s.cancelledNeedIds id' = some f → f = requester')
    (hfew : behind + 1 < h.maxCancellationTombstones) :
    Cut id requester before (behind + 1) (revoke h id' requester' s) := by
  have hC' := hC.remember hI hsame hfew
  unfold Provider.revoke
  dsimp only
  split
  · next s' hs => exact hC'.cancelPending hs
  · split
    · exact hC'
    · split
      · exact hC'.abort
      · exact hC'

/-- After its revocation a NEED is cut. -/
theorem Inv.cut (hI : Inv s)
    (htracked : ∀ t ∈ s.tasks, t.need.isOf id requester = true → t.live = true →
      t.tracked = true) :
    Cut id requester s.log 0 (Provider.revoke h id requester s) := by
  have hI' : Inv (rememberCancellation h id requester s) := hI.remember
  obtain ⟨older, hstone⟩ := remember_newest h id requester s
  -- What goes on for the NEED and is not aborted is held by the host.
  have hheld : ∀ (k : ℕ) t, s.tasks[k]? = some t → t.need.isOf id requester = true →
      t.live = true → t.aborted = false → Maps.get s.inFlight id = some k := by
    intro k t ht hof hlive hab
    have hflying := hI.flying k t ht (htracked t (List.mem_of_getElem? ht) hof hlive) hab hlive
    obtain ⟨rfl, -⟩ : t.need.id = id ∧ t.need.from_ = requester := by simpa [Need.isOf] using hof
    exact hflying
  have hdead : Maps.get s.inFlight id = none → ∀ t ∈ s.tasks, t.need.isOf id requester = true →
      t.live = true → t.aborted = true := by
    intro hnone t ht hof hlive
    by_contra hab
    obtain ⟨k, hk⟩ := List.getElem?_of_mem ht
    rw [hheld k t hk hof hlive (by simpa using hab)] at hnone
    cases hnone
  unfold Provider.revoke
  dsimp only
  cases hpending : cancelPendingNeed id requester (rememberCancellation h id requester s) with
  | some s' =>
    obtain ⟨-, hfree, hout⟩ := hI'.cancelPending hpending
    have hwaits : ∀ n ∈ s'.pendingNeeds, n.isOf id requester = false := by
      intro n hn
      simp [Need.isOf, hout n hn]
    unfold cancelPendingNeed at hpending
    split at hpending
    · cases hpending
      exact ⟨⟨older, [], hstone, Nat.le_refl 0⟩, hwaits, hdead hfree,
        ⟨[], (List.append_nil _).symm, fun e he => by cases he⟩⟩
    · cases hpending
  | none =>
    have hwaits : ∀ n ∈ s.pendingNeeds, n.isOf id requester = false := by
      unfold cancelPendingNeed at hpending
      split at hpending
      · cases hpending
      · next hnone =>
        intro n hn
        by_contra hof
        exact hnone (List.any_eq_true.mpr ⟨n, hn, by simpa using hof⟩)
    have hcut : (∀ t ∈ s.tasks, t.need.isOf id requester = true → t.live = true →
        t.aborted = true) → Cut id requester s.log 0 (rememberCancellation h id requester s) :=
      fun hdead => ⟨⟨older, [], hstone, Nat.le_refl 0⟩, hwaits, hdead,
        ⟨[], (List.append_nil _).symm, fun e he => by cases he⟩⟩
    dsimp only
    cases hflight : Maps.get (rememberCancellation h id requester s).inFlight id with
    | none => exact hcut (hdead hflight)
    | some k =>
      dsimp only
      split
      · refine ⟨⟨older, [], hstone, Nat.le_refl 0⟩, hwaits, fun t ht hof hlive => ?_,
          ⟨[], (List.append_nil _).symm, fun e he => by cases he⟩⟩
        obtain ⟨j, hj⟩ := List.getElem?_of_mem ht
        rw [getElem?_abort] at hj
        split at hj
        · obtain ⟨u, -, rfl⟩ := Option.map_eq_some_iff.mp hj
          rfl
        · next hjk =>
          by_contra hab
          have := hheld j t hj hof hlive (by simpa using hab)
          exact hjk (Option.some.inj (hflight.symm.trans this))
      · next hcond =>
        refine hcut fun t ht hof hlive => ?_
        by_contra hab
        obtain ⟨j, hj⟩ := List.getElem?_of_mem ht
        have hjk := Option.some.inj
          (hflight.symm.trans (hheld j t hj hof hlive (by simpa using hab)))
        subst hjk
        have hfrom : t.need.from_ = requester := by
          simp only [Need.isOf, decide_eq_true_eq] at hof
          exact hof.2
        refine hcond ?_
        show (s.tasks[k]?.any fun t => !t.aborted && t.need.from_ = requester) = true
        rw [hj]
        simpa [hfrom] using hab

/-! ### Stopping -/

theorem foldl_abort_tasks {t : Task} (ht : s.tasks[k]? = some t) (hk : k ∈ l ∨ t.aborted = true) :
    ∃ t, (l.foldl State.abort s).tasks[k]? = some t ∧ t.aborted = true := by
  induction l generalizing s t with
  | nil => exact ⟨t, ht, hk.resolve_left (by simp)⟩
  | cons j l ih =>
    have hj : (s.abort j).tasks[k]? = some (if j = k then { t with aborted := true } else t) := by
      rw [getElem?_abort, ht]
      split <;> rfl
    refine ih hj ?_
    split
    · exact .inr rfl
    · next hjk => exact hk.imp (fun hk => (List.mem_cons.mp hk).resolve_left fun h => hjk h.symm) id

theorem Inv.stop (hI : Inv s) : Inv (stop preserve s) := by
  have hfold : Inv ((s.inFlight.map Prod.snd).foldl State.abort s) :=
    List.foldlRecOn _ State.abort hI fun u hu j _ => hu.abort
  have hmine : ∀ k ∈ s.inFlight.map Prod.snd, ∃ t,
      ((s.inFlight.map Prod.snd).foldl State.abort s).tasks[k]? = some t ∧ t.aborted = true := by
    intro k hk
    obtain ⟨q, hq, rfl⟩ := List.mem_map.mp hk
    exact foldl_abort_tasks (List.getElem?_eq_getElem (hI.held_lt q hq)) (.inl hk)
  have hstopping : ∀ d ∈ s.stops ++ [⟨s.inFlight.map Prod.snd, preserve⟩], ∀ k ∈ d.states, ∃ t,
      ((s.inFlight.map Prod.snd).foldl State.abort s).tasks[k]? = some t ∧ t.aborted = true := by
    intro d hd
    rcases List.mem_append.mp hd with hd | hd
    · intro k hk
      obtain ⟨t, ht, hab⟩ := hI.stopping d hd k hk
      exact foldl_abort_tasks ht (.inr hab)
    · obtain rfl := List.mem_singleton.mp hd
      exact hmine
  unfold Provider.stop
  dsimp only
  split
  · exact { hfold with stopping := hstopping }
  · exact { hfold with
      stopping := hstopping, pending := List.nodup_nil, listed := (by simp), waiting := (by simp) }

theorem Cut.stop (hC : Cut id requester before behind s) :
    Cut id requester before behind (stop preserve s) := by
  have hfold : Cut id requester before behind ((s.inFlight.map Prod.snd).foldl State.abort s) :=
    List.foldlRecOn _ State.abort hC fun u hu j _ => hu.abort
  unfold Provider.stop
  dsimp only
  split
  · exact { hfold with }
  · exact { hfold with waits := (by simp) }

theorem release_tasks : (release k s).tasks = s.tasks := by
  unfold release
  split
  · rfl
  · split <;> rfl

theorem Inv.releaseAll (hI : Inv s) (hl : ∀ k ∈ l, ∃ t, s.tasks[k]? = some t ∧ t.aborted = true) :
    Inv (l.foldl (fun s k => Provider.release k s) s) := by
  suffices hboth : Inv (l.foldl (fun s k => Provider.release k s) s) ∧
      (l.foldl (fun s k => Provider.release k s) s).tasks = s.tasks from hboth.1
  refine List.foldlRecOn (motive := fun u => Inv u ∧ u.tasks = s.tasks) _ _ ⟨hI, rfl⟩
    fun u hu k hk => ⟨hu.1.release fun t ht _ => ?_, release_tasks.trans hu.2⟩
  obtain ⟨t', ht', hab⟩ := hl k hk
  rw [hu.2, ht'] at ht
  exact Option.some.inj ht ▸ hab

theorem Inv.stopped (hI : Inv s) (hd : ∀ k ∈ d.states, ∃ t, s.tasks[k]? = some t ∧ t.aborted = true)
    :
    Inv (stopped d drained s) := by
  have hrelease : Inv (if drained then s else d.states.foldl (fun s k => Provider.release k s) s) := by
    split
    · exact hI
    · exact hI.releaseAll hd
  unfold Provider.stopped
  dsimp only
  split
  · exact List.foldlRecOn _ _ hrelease fun u hu k _ => hu.requeue
  · exact hrelease

theorem Cut.stopped (hI : Inv s) (hd : ∀ k ∈ d.states, ∃ t, s.tasks[k]? = some t ∧ t.aborted = true)
    (hC : Cut id requester before behind s) :
    Cut id requester before behind (stopped d drained s) := by
  have hrelease : Inv (if drained then s else d.states.foldl (fun s k => Provider.release k s) s) ∧
      Cut id requester before behind
        (if drained then s else d.states.foldl (fun s k => Provider.release k s) s) := by
    split
    · exact ⟨hI, hC⟩
    · exact ⟨hI.releaseAll hd, List.foldlRecOn _ _ hC fun u hu k _ => hu.release⟩
  unfold Provider.stopped
  dsimp only
  split
  · exact (List.foldlRecOn (motive := fun u => Inv u ∧ Cut id requester before behind u) _ _
      hrelease fun u hu k _ => ⟨hu.1.requeue, hu.2.requeue hu.1⟩).2
  · exact hrelease.2

/-! ### Steps -/

/-- What goes wrong is not done: another sender's REVOKE of a NEED with a tombstone, or a REVOKE of
    what `runOnce` executes; a `runOnce` of what was revoked; and, for an execution that was
    aborted, that its paid NEED is found good a second time. -/
def State.fits (s : State) : Event → Bool
  | .revoke r =>
    match cancellationFromEvent r with
    | none => true
    | some (id, requester) =>
      (Maps.get s.cancelledNeedIds id).all (fun f => f = requester) &&
        s.tasks.all fun t => t.tracked || !t.need.isOf id requester || !t.live
  | .runOnce n => Maps.get s.cancelledNeedIds n.id ≠ some n.from_
  | .resume k w => !(s.tasks[k]?.any fun t => t.aborted && t.verifiesAgain) || !w.paid.isOk
  | _ => true

def Fits (s : State) (e : Event) : Prop := s.fits e = true

instance (s : State) (e : Event) : Decidable (Fits s e) := inferInstanceAs (Decidable (_ = true))

def Event.revokes : Event → Bool
  | .revoke r => (cancellationFromEvent r).isSome
  | _ => false

theorem Inv.push (hI : Inv s) (ht : t.live = false) : Inv { s with tasks := s.tasks ++ [t] } := by
  refine { hI with held := ?_, flying := ?_, held_lt := ?_, stopping := ?_ }
  · intro u hu
    rcases List.mem_append.mp hu with hu | hu
    · exact hI.held u hu
    · obtain rfl := List.mem_singleton.mp hu
      exact Task.held_of_not_live ht
  · intro j u hu htracked hab hlive
    rcases of_getElem?_concat hu with hu | ⟨-, rfl⟩
    · exact hI.flying j u hu htracked hab hlive
    · rw [ht] at hlive
      cases hlive
  · intro q hq
    dsimp only
    rw [List.length_append, List.length_singleton]
    exact (hI.held_lt q hq).trans (Nat.lt_succ_self _)
  · intro d hd j hj
    obtain ⟨u, hu, hab⟩ := hI.stopping d hd j hj
    exact ⟨u, (List.getElem?_append_left (List.getElem_of_getElem? hu).1).trans hu, hab⟩

theorem Cut.push (hC : Cut id requester before behind s) (ht : t.live = false) :
    Cut id requester before behind { s with tasks := s.tasks ++ [t] } := by
  refine { hC with dead := fun u hu hof hlive => ?_ }
  rcases List.mem_append.mp hu with hu | hu
  · exact hC.dead u hu hof hlive
  · obtain rfl := List.mem_singleton.mp hu
    rw [ht] at hlive
    cases hlive

/-- An execution whose signal is up is silent from its next answer on. -/
theorem Task.Held.silent {next : Answers → Program} (ht : t.Held)
    (hstage : t.stage = .asking a next) (hab : t.aborted = true)
    (hfit : (!(t.aborted && t.verifiesAgain) || !w.paid.isOk) = true) :
    Silent Visible (next w) := by
  refine (ht a next hstage w).1 fun hloose => ?_
  rw [hab, Task.verifiesAgain, hstage] at hfit
  cases a with
  | verifyPaidNeedAgain =>
    rw [show w.paid.isOk = true from hloose] at hfit
    cases hfit
  | _ => exact hloose

theorem Inv.schedule (hI : Inv s) : Inv (scheduleNeed h n s) := by
  unfold scheduleNeed
  split
  · exact hI
  split
  · exact hI
  next hfree =>
  rw [Bool.not_eq_true, Option.isSome_eq_false_iff, Option.isNone_iff_eq_none] at hfree
  split
  · exact hI
  next hout =>
  split
  · exact hI
  split
  · exact hI.startNeed hfree fun m hm heq => hout (heq ▸ hI.listed m hm)
  · split
    · exact hI.enqueueNeed hfree hout
    · exact { hI with }

theorem Cut.schedule (hI : Inv s) (hC : Cut id requester before behind s) :
    Cut id requester before behind (scheduleNeed h n s) := by
  unfold scheduleNeed
  split
  · exact hC
  split
  · exact hC
  split
  · exact hC
  split
  · exact hC
  next hstone =>
  have hn := hC.other hI hstone
  split
  · exact hC.startNeed hn
  · split
    · exact hC.enqueueNeed hn
    · exact hC.reject hn

theorem resume_cases (h : Settings) (s : State) (k : ℕ) (w : Answers) : step h s (.resume k w) = s ∨
    ∃ t a next, s.tasks[k]? = some t ∧ t.stage = .asking a next ∧
      step h s (.resume k w) = s.proceed k t (next w) := by
  cases hk : s.tasks[k]? with
  | none => exact .inl (by simp only [step, hk])
  | some t =>
    cases hstage : t.stage with
    | asking a next => exact .inr ⟨t, a, next, rfl, hstage, by simp only [step, hk, hstage]⟩
    | ended => exact .inl (by simp only [step, hk, hstage])
    | closed => exact .inl (by simp only [step, hk, hstage])

theorem settled_cases (h : Settings) (s : State) (k : ℕ) : step h s (.settled k) = s ∨
    ∃ t, s.tasks[k]? = some t ∧ step h s (.settled k) = drainPendingNeeds h
      (release k { s with tasks := s.tasks.set k { t with stage := .closed } }) := by
  cases hk : s.tasks[k]? with
  | none => exact .inl (by simp only [step, hk])
  | some t =>
    cases hstage : t.stage with
    | asking a next => exact .inl (by simp only [step, hk, hstage])
    | closed => exact .inl (by simp only [step, hk, hstage])
    | ended => exact .inr ⟨t, rfl, by simp only [step, hk, hstage]⟩

theorem stopped_cases (h : Settings) (s : State) (i : ℕ) (drained : Bool) : step h s (.stopped i drained) = s ∨
    ∃ d ∈ s.stops, step h s (.stopped i drained) =
      stopped d drained { s with stops := s.stops.eraseIdx i } := by
  cases hd : s.stops[i]? with
  | none => exact .inl (by simp only [step, hd])
  | some d => exact .inr ⟨d, List.mem_of_getElem? hd, by simp only [step, hd]⟩

theorem Fits.resume (hfit : Fits s (.resume k w)) (hk : s.tasks[k]? = some t) :
    (!(t.aborted && t.verifiesAgain) || !w.paid.isOk) = true := by
  rw [Fits, State.fits, hk, Option.any_some] at hfit
  exact hfit

theorem Inv.closed (hI : Inv s) (hk : s.tasks[k]? = some t) :
    Inv (Provider.release k { s with tasks := s.tasks.set k { t with stage := .closed } }) := by
  have hclosed : Inv { s with tasks := s.tasks.set k { t with stage := .closed } } :=
    hI.setTask hk rfl (Task.held_of_not_live rfl) fun _ _ hlive => by cases hlive
  refine hclosed.release fun u hu hlive => ?_
  dsimp only at hu
  rw [List.getElem?_set_self (List.getElem_of_getElem? hk).1] at hu
  cases hu
  cases hlive

theorem Inv.step (hI : Inv s) (hfit : Fits s e) : Inv (step h s e) := by
  cases e with
  | start => exact Inv.drain { hI with }
  | loopError => exact { hI with }
  | need n => exact hI.schedule
  | revoke r =>
    dsimp only [Provider.step]
    split
    · exact hI
    · exact hI.revoke
  | runOnce n =>
    refine (hI.push rfl).proceed List.getElem?_concat_length (fun htracked => ?_) (fun hab => ?_)
      fun _ => executeNeed_safe.fenced
    · cases htracked
    · cases hab
  | resume k w =>
    rcases resume_cases h s k w with heq | ⟨t, a, next, hk, hstage, heq⟩
    · rwa [heq]
    · have hheld := hI.held t (List.mem_of_getElem? hk)
      have hlive : t.live = true := by rw [Task.live, hstage]
      rw [heq]
      exact hI.proceed hk (fun htracked hab => hI.flying k t hk htracked hab hlive)
        (fun hab => hheld.silent hstage hab (hfit.resume hk))
        fun hab => (hheld a next hstage w).2 hab
  | settled k =>
    rcases settled_cases h s k with heq | ⟨t, hk, heq⟩
    · rwa [heq]
    · rw [heq]
      exact (hI.closed hk).drain
  | stop preserve => exact hI.stop
  | stopped i drained =>
    rcases stopped_cases h s i drained with heq | ⟨d, hd, heq⟩
    · rwa [heq]
    · rw [heq]
      refine Inv.stopped { hI with stopping := fun e he => hI.stopping e ?_ } (hI.stopping d hd)
      exact List.mem_of_mem_eraseIdx he

theorem Cut.step (hI : Inv s) (hfit : Fits s e) (hC : Cut id requester before behind s)
    (hfew : behind + (if e.revokes then 1 else 0) < h.maxCancellationTombstones) :
    Cut id requester before (behind + if e.revokes then 1 else 0) (step h s e) := by
  cases e with
  | start => exact Cut.drain { hI with } { hC with }
  | loopError => exact { hC with }
  | need n => exact hC.schedule hI
  | revoke r =>
    rw [Fits, State.fits] at hfit
    cases hr : cancellationFromEvent r with
    | none =>
      simp only [Provider.step, Event.revokes, hr]
      exact hC
    | some q =>
      simp only [Event.revokes, hr, Option.isSome_some, if_true] at hfew
      rw [hr] at hfit
      dsimp only at hfit
      rw [Bool.and_eq_true] at hfit
      simp only [Provider.step, Event.revokes, hr, Option.isSome_some, if_true]
      refine hC.revoke hI (fun f hf => ?_) hfew
      rw [hf, Option.all_some] at hfit
      exact of_decide_eq_true hfit.1
  | runOnce n =>
    have hn : n.isOf id requester = false := hC.other hI (of_decide_eq_true hfit)
    refine (hC.push rfl).proceed (fun hof => ?_) fun hof => ?_
    · rw [hn] at hof
      cases hof
    · rw [hn] at hof
      cases hof
  | resume k w =>
    rcases resume_cases h s k w with heq | ⟨t, a, next, hk, hstage, heq⟩
    · rwa [heq]
    · have hmem := List.mem_of_getElem? hk
      have hdead : t.need.isOf id requester = true → t.aborted = true :=
        fun hof => hC.dead t hmem hof (by rw [Task.live, hstage])
      rw [heq]
      exact hC.proceed hdead fun hof =>
        (hI.held t hmem).silent hstage (hdead hof) (hfit.resume hk)
  | settled k =>
    rcases settled_cases h s k with heq | ⟨t, hk, heq⟩
    · rwa [heq]
    · rw [heq]
      refine Cut.drain (hI.closed hk) (Cut.release { hC with dead := fun u hu hof hlive => ?_ })
      rcases List.mem_or_eq_of_mem_set hu with hu | rfl
      · exact hC.dead u hu hof hlive
      · cases hlive
  | stop preserve => exact hC.stop
  | stopped i drained =>
    rcases stopped_cases h s i drained with heq | ⟨d, hd, heq⟩
    · rwa [heq]
    · rw [heq]
      refine Cut.stopped { hI with stopping := fun e he => hI.stopping e ?_ } (hI.stopping d hd)
        { hC with }
      exact List.mem_of_mem_eraseIdx he

/-! ### Runs -/

theorem Inv.initial : Inv State.initial where
  held := by simp [State.initial]
  flying := by simp [State.initial]
  pending := List.nodup_nil
  listed := by simp [State.initial]
  waiting := by simp [State.initial]
  stones := List.nodup_nil
  held_lt := by simp [State.initial]
  stopping := by simp [State.initial]

theorem Cut.run {es : List Event} (hI : Inv s) (hfits : Along (Provider.step h) Fits s es)
    (hC : Cut id requester before behind s)
    (hfew : behind + es.countP Event.revokes < h.maxCancellationTombstones) :
    Cut id requester before (behind + es.countP Event.revokes) (Provider.run h es s) := by
  induction es generalizing s behind with
  | nil => exact hC
  | cons e es ih =>
    have hcount : behind + (e :: es).countP Event.revokes =
        behind + (if e.revokes then 1 else 0) + es.countP Event.revokes := by
      rw [List.countP_cons]
      omega
    rw [hcount] at hfew ⊢
    exact ih (hI.step hfits.1) hfits.2 (hC.step hI hfits.1 (by omega)) hfew

/-- THE FENCE: in a run in which nobody else revokes a NEED that has a tombstone, `runOnce` executes
    nothing that is revoked, and no paid NEED is found good again after its execution was aborted,
    nothing of a NEED is executed or answered after its requester's REVOKE, until there were as many
    other revocations as the host remembers. -/
theorem cancellation_fenced (h : Settings) (past rest : List Event) (r : Revocation) (id : NeedId)
    (requester : NodeId) (hr : cancellationFromEvent r = some (id, requester))
    (hfits : Along (step h) Fits State.initial (past ++ .revoke r :: rest))
    (hfew : rest.countP Event.revokes < h.maxCancellationTombstones) :
    ∃ later, (run h (past ++ .revoke r :: rest) State.initial).log =
        (run h past State.initial).log ++ later ∧
      ∀ e ∈ later, e.1.id = id → e.1.from_ = requester → ¬Visible e.2 := by
  obtain ⟨hpast, hrevoke, hrest⟩ := Along.append.mp hfits
  have hI : Inv (run h past State.initial) :=
    hpast.keeps Inv.initial fun s e hI hfit => hI.step hfit
  have hfit : Fits (run h past State.initial) (.revoke r) := hrevoke
  have htracked : ∀ t ∈ (run h past State.initial).tasks, t.need.isOf id requester = true →
      t.live = true → t.tracked = true := by
    rw [Fits, State.fits, hr] at hfit
    dsimp only at hfit
    rw [Bool.and_eq_true, List.all_eq_true] at hfit
    intro t ht hof hlive
    have := hfit.2 t ht
    simpa [hof, hlive] using this
  have hcut := hI.cut (h := h) htracked
  have hstep : step h (run h past State.initial) (.revoke r) =
      revoke h id requester (run h past State.initial) := by
    simp only [step, hr]
  rw [← hstep] at hcut
  obtain ⟨later, hlog, hlater⟩ := (hcut.run (hI.step hfit) hrest (by rwa [Nat.zero_add])).shown
  refine ⟨later, ?_, fun e he hid hfrom => hlater e he (by simp [Need.isOf, hid, hfrom])⟩
  rw [← hlog, run, List.foldl_append, List.foldl_cons]
  rfl

/-! ### Runs of one NEED -/

theorem plainHost_tombstones_pos : 0 < 1024 := by decide

/-- A host without ledger or billing. -/
def plainHost : Settings :=
  ⟨[js "chat"], js "open", false, false, none, false, 1024, 1, 256,
    plainHost_tombstones_pos⟩

/-- A host that requires paid NEEDs. -/
def paidHost : Settings :=
  { plainHost with effectLedger := true, requirePaidNeedLedger := true, billingPolicy := some (js "self") }

/-- The NEED `x` of the node `a`. -/
def needX : Need := ⟨js "x", js "a", some (js "chat"), js "hello", none, false, none⟩

def revokeX (requester : NodeId) : Revocation := ⟨true, js "x", none, requester⟩

/-- Everything is granted and succeeds. -/
def fine : Answers where
  access := .ok true
  paid := .ok ()
  acquired := .ok true
  billing := .ok ⟨true, none, js "self", js "provider-owner", none, false⟩
  materialized := .ok ([], 0)
  executed := .ok ⟨js "done", none⟩
  finished := .ok ()
  finalized := .ok none
  sent := .ok ()

/-- The NEED is revoked while access to it is authorized. -/
theorem fenced_while_authorizing : ∃ later,
    (run plainHost ([.need needX, .resume 0 fine] ++ .revoke (revokeX (js "a")) ::
        [.resume 0 fine]) State.initial).log =
      (run plainHost [.need needX, .resume 0 fine] State.initial).log ++ later ∧
    ∀ e ∈ later, e.1.id = js "x" → e.1.from_ = js "a" → ¬Visible e.2 :=
  cancellation_fenced plainHost [.need needX, .resume 0 fine] [.resume 0 fine] (revokeX (js "a"))
    (js "x") (js "a") rfl (by decide) (by decide)

/-- Whether the adapter starts for `x` after its requester's REVOKE, before it may be forgotten. -/
def startsAfter (h : Settings) (past rest : List Event) : Bool :=
  let before := run h past State.initial
  let after := run h (past ++ .revoke (revokeX (js "a")) :: rest) State.initial
  rest.countP Event.revokes < h.maxCancellationTombstones &&
    (after.log.drop before.log.length).any fun e =>
      match e.2 with
      | .execute _ => e.1.isOf (js "x") (js "a")
      | _ => false

/-- The adapter starts after the requester's REVOKE: when another node revokes the NEED before it
    comes; when the second check of a paid NEED is under way; and by `runOnce`. -/
theorem started_after_revoke :
    startsAfter plainHost []
      [.revoke (revokeX (js "b")), .need needX, .resume 0 fine, .resume 0 fine] = true ∧
    startsAfter paidHost [.need needX, .resume 0 fine, .resume 0 fine, .resume 0 fine,
      .resume 0 fine, .resume 0 fine] [.resume 0 fine] = true ∧
    startsAfter plainHost [] [.runOnce needX, .resume 0 fine] = true := by
  decide

end Truyn.Provider
