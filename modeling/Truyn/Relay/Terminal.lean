import Truyn.Relay.Status

/-! relay:terminal | one terminal status and one RESULT for every NEED

    The verdict on a request is the ledger's status of its NEED, or without a ledger its own status.
    A verdict other than `matched` is final, and a request that left `matched` follows it, as long as
    the segments are `Orderly`: nobody writes a status over one that was written while he waited.

    Successes and RESULTs are counted with tokens: an answered completion holds one until it is
    counted, a counted one holds one until its RESULT is delivered. -/

namespace Truyn.Relay
open Async
open Ledger (NeedStatus Time Record History Awaited Book Call Transition versions)

variable {o : Options} {i : Input} {t : Option Task} {w w' : World}

/-! ### Verdicts -/

/-- What has been decided about the NEED of a request. -/
def World.verdict (w : World) (q : Request) : NeedStatus :=
  if w.ledger.isSome then (versions w.ledger q.needId).status else q.status

/-- The status a handler is about to write: its own, or the ledger's that a poll has read. -/
def Task.writes : Task → Option (Ref × NeedStatus)
  | .resume (.record (some d)) (.statusRead _ _ r) =>
    if d.status = .matched then none else some (r, d.status)
  | .resume a k => if a.failed then none else k.settles
  | _ => none

/-- No status is written over another one. Without a ledger a handler that resumes to write a status
    finds its request matched, or cancelled by another REVOKE; with a ledger it does not find it
    failed by the end of a chain, which the ledger knows nothing of. -/
def Orderly (w : World) (t : Option Task) (_ : Input × Env o) : Prop :=
  ∀ x ∈ t, ∀ p ∈ x.writes, ∀ q ∈ w.view p.1, q.stage = none →
    if w.ledger.isSome then q.status = .failed → w.verdict q = .failed
    else q.status ≠ .matched → q.status = .cancelled ∧ p.2 = .cancelled

instance (w : World) (t : Option Task) (x : Input × Env o) : Decidable (Orderly w t x) := by
  unfold Orderly; infer_instance

/-- A request that left `matched` follows its verdict, unless the end of a chain failed it. -/
def Agreed (w : World) : Prop :=
  ∀ r, ∀ q ∈ w.view r, q.stage = none → q.status ≠ .matched → q.status ≠ .failed →
    w.verdict q = q.status

/-- A handler that is about to write a status has it from the ledger. -/
def Ruled (w : World) (x : Task) : Prop :=
  w.ledger.isSome → ∀ p ∈ x.writes, ∃ q ∈ w.view p.1, w.verdict q = p.2

/-- Verdicts and terminal statuses of direct requests stay. -/
structure Firm (w w' : World) : Prop extends Onward w w' where
  verdict : ∀ r, ∀ q ∈ w.view r, ∀ q' ∈ w'.view r, w.ledger.isSome → w.verdict q ≠ .matched →
    w'.verdict q' = w.verdict q
  status : ∀ r, ∀ q ∈ w.view r, ∀ q' ∈ w'.view r, q.stage = none → q.status ≠ .matched →
    q'.status = q.status

theorem verdict_alone (hl : w.ledger = none) (q : Request) : w.verdict q = q.status := by
  rw [World.verdict, hl]; rfl

variable {q q' : Request} {r : Ref} {k : Cont} {p : Ref × NeedStatus} {x : Task} {c : Call}
  {s : Step}

/-- The ledger's verdict is final. -/
theorem Onward.verdict (h : Onward w w') (hl' : ∀ id, Ledger.Abstract (versions w'.ledger id))
    (hl : w.ledger.isSome) (hq : q ∈ w.view r) (hq' : q' ∈ w'.view r)
    (hv : w.verdict q ≠ .matched) : w'.verdict q' = w.verdict q := by
  obtain ⟨q₁, hq₁, hid, -⟩ := h.object r q hq
  cases (Option.mem_def.mp hq').symm.trans hq₁
  have hl₁ : w'.ledger.isSome := h.ledger.trans hl
  rw [World.verdict, if_pos hl] at hv
  rw [World.verdict, World.verdict, if_pos hl, if_pos hl₁, hid]
  exact Ledger.status_final (h.history q.needId) (hl' _) hv

/-! ### What is about to be written -/

theorem writes_settles {a : Awaited} (ha : a.failed = false) (hk : k.settles = some p) :
    (Task.resume a k).writes = some p := by
  cases k <;> cases hk <;> simp [Task.writes, ha, Cont.settles]

theorem writes_adopts {d : Record} {q i : Id} (hd : d.status ≠ .matched) :
    (Task.resume (.record (some d)) (.statusRead q i r)).writes = some (r, d.status) := by
  simp [Task.writes, hd]

theorem writes_cases (h : x.writes = some p) :
    (∃ a k, x = .resume a k ∧ a.failed = false ∧ k.settles = some p) ∨
      ∃ q i r d, x = .resume (.record (some d)) (.statusRead q i r) ∧ d.status ≠ .matched ∧
        p = (r, d.status) := by
  unfold Task.writes at h
  split at h
  · next d q i r =>
    split at h
    · cases h
    · next hd => exact .inr ⟨q, i, r, d, rfl, hd, (Option.some.inj h).symm⟩
  · next a k _ =>
    split at h
    · cases h
    · next ha => exact .inl ⟨a, k, rfl, by simpa using ha, h⟩
  · cases h

theorem writes_terminal (h : x.writes = some p) :
    p.2 ≠ .matched := by
  rcases writes_cases h with ⟨_, k, -, -, hk⟩ | ⟨_, _, _, _, -, hd, rfl⟩
  · cases k <;> cases hk <;> simp
  · exact hd

/-- A verdict that a handler brings along is still the verdict. -/
theorem Firm.ruled (h : Firm w w') (hx : Ruled w x) : Ruled w' x := by
  intro hl p hp
  have hl₀ : w.ledger.isSome := h.ledger ▸ hl
  obtain ⟨q, hq, hv⟩ := hx hl₀ p hp
  obtain ⟨q', hq', -⟩ := h.object p.1 q hq
  exact ⟨q', hq', (h.verdict p.1 q hq q' hq' hl₀ (hv ▸ writes_terminal hp)).trans hv⟩

theorem asks_of_settles (h : k.settles = some p) : k.asks := by
  cases k <;> cases h <;> rfl

theorem ruled_nothing (h : Fits o w (.resume .nothing k)) :
    Ruled w (.resume .nothing k) := by
  intro hl p hp
  rcases writes_cases hp with ⟨_, _, he, -, hk⟩ | ⟨_, _, _, _, he, -⟩
  · cases he
    rw [h.2.1 (asks_of_settles hk)] at hl
    cases hl
  · cases he

theorem ruled_fault (f : Ledger.Fault) (k : Cont) : Ruled w (.resume (.fault f) k) := by
  intro _ p hp
  rcases writes_cases hp with ⟨_, _, he, ha, -⟩ | ⟨_, _, _, _, he, -⟩
  · cases he
    cases ha
  · cases he

/-- The call a settling handler waits for is about its request and asks for the status it writes. -/
theorem asked_transition {s : NeedStatus} (hs : Shape o w k) (hc : Asked w c k)
    (hk : k.settles = some (r, s)) :
    ∃ c', c = .transitionNeed c' ∧ c'.toStatus = s ∧ ∃ q ∈ w.view r, c'.id = q.needId := by
  cases k <;> cases hk
  case revokeCommitted m =>
    obtain ⟨q, hq, rfl⟩ := hc
    obtain ⟨q', hq', hid, -⟩ := hs
    exact ⟨_, rfl, rfl, q', hq', hid.symm⟩
  all_goals
    obtain ⟨q, hq, rfl⟩ := hc
    exact ⟨_, rfl, rfl, q, hq, rfl⟩

/-- What the ledger answers a settling handler is its verdict. -/
theorem ruled_exec (hs : Shape o w k) (hc : Asked w c k) (now : Time) :
    Ruled (execCall w c [] now).1 (.resume (execCall w c [] now).2 k) := by
  intro hl' p hp
  rcases writes_cases hp with ⟨_, _, he, ha, hk⟩ | ⟨_, _, _, _, he, -⟩
  · cases he
    obtain ⟨c', rfl, hto, q, hq, hid⟩ := asked_transition hs hc hk
    refine ⟨q, hq, ?_⟩
    rw [World.verdict, if_pos hl', ← hid, ← hto]
    exact (Ledger.execute_transition ha).1
  · have ha := (Task.resume.inj he).1
    rcases Ledger.execute_replied w.ledger c [] now with ⟨f, hf⟩ | ⟨b, hb⟩
    · cases hf.symm.trans ha
    · cases hb.symm.trans ha

/-- What a status poll reads, however old, is the verdict if it is terminal. -/
theorem ruled_read {id : Id} (h : Fits o w (.read id k))
    (hl : ∀ id, Ledger.Abstract (versions w.ledger id)) (age : ℕ) :
    Ruled w (.resume (.record (History.record ((versions w.ledger id).drop age))) k) := by
  obtain ⟨-, hs, hk, hid⟩ := h
  intro hl' p hp
  rcases writes_cases hp with ⟨_, _, he, -, hk'⟩ | ⟨n, i, r, d, he, hd, rfl⟩
  · cases he
    rw [asks_of_settles hk'] at hk
    cases hk
  · obtain ⟨ha, rfl⟩ := Task.resume.inj he
    obtain ⟨q, hq, hn⟩ := hs
    obtain rfl := hid n i r rfl
    have hst : History.status ((versions w.ledger id).drop age) = d.status := by
      rw [History.status, Awaited.record.inj ha]; rfl
    refine ⟨q, hq, ?_⟩
    rw [World.verdict, if_pos hl', hn, ← hst]
    exact Ledger.status_final (List.drop_suffix _ _) (hl id) (hst ▸ hd)

theorem Segment.ruled (hw : Sane o w) (ht : ∀ x ∈ t, Fits o w x) (h : Segment o i t w s) :
    ∀ x ∈ s.2, Ruled s.1 x := by
  intro x hx
  cases x with
  | call | read => exact fun _ p hp => nomatch hp
  | resume a k =>
    rcases h.reply hx with rfl | ⟨f, rfl, -⟩ | ⟨c, now, ht', -, rfl, hs⟩ |
      ⟨id, age, ht', hs, rfl⟩
    · exact ruled_nothing (h.fits ht _ hx)
    · exact ruled_fault f k
    · obtain ⟨-, hsh, hc⟩ := ht _ ht'
      rw [hs]
      exact ruled_exec hsh hc now
    · rw [hs]
      exact ruled_read (ht _ ht') hw.lineage age

/-! ### Statuses are final -/

/-- A status is written by a handler that brings it along, or it is the failure of a matched
    request. -/
theorem Change.cause {s : NeedStatus} (h : Change i t w r q s) (hq : q ∈ w.view r)
    (hd : q.stage = none) : (s = .failed ∧ q.status = .matched) ∨
      ∃ x ∈ t, x.writes = some (r, s) := by
  cases h with
  | expired _ hm => exact .inl ⟨rfl, hm⟩
  | settled ht ha hk => exact .inr ⟨_, ht, writes_settles ha hk⟩
  | adopted ht hd => exact .inr ⟨_, ht, writes_adopts hd⟩
  | stage hs _ =>
    rw [hd] at hs
    cases hs
  | closed _ hp =>
    refine .inl ⟨rfl, ?_⟩
    have hp := (Option.filter_eq_some_iff.mp hp).2
    rw [requestTerminal_eq, Option.mem_def.mp hq] at hp
    simpa using hp

/-- An orderly segment changes no terminal status, and follows the verdict. -/
theorem Segment.decided {e : Env o} (hw : Sane o w) (hA : Agreed w) (ht : ∀ x ∈ t, Ruled w x)
    (hG : Orderly w t (i, e)) (h : Segment o i t w s) (hq : q ∈ w.view r) (hq' : q' ∈ s.1.view r)
    (hd : q.stage = none) :
    (q.status ≠ .matched → q'.status = q.status) ∧
      (q'.status ≠ .matched → q'.status ≠ .failed → s.1.verdict q' = q'.status) := by
  have hon := h.onward
  have hl' := (h.sane hw).lineage
  obtain ⟨q₁, hq₁, hst⟩ := h.status r q hq
  cases (Option.mem_def.mp hq').symm.trans hq₁
  cases hl : w.ledger with
  | none =>
    refine ⟨fun hs => ?_, fun _ _ => ?_⟩
    · rcases hst with hst | hst
      · exact hst
      rcases hst.cause hq hd with ⟨-, hm⟩ | ⟨x, hx, hk⟩
      · exact absurd hm hs
      · have hg := hG x hx _ hk q hq hd
        rw [hl] at hg
        obtain ⟨h₁, h₂⟩ := hg hs
        exact h₂.trans h₁.symm
    · refine verdict_alone ?_ q'
      simpa [hl] using hon.ledger
  | some b =>
    have hs : w.ledger.isSome := by rw [hl]; rfl
    -- a status that a handler brings along is the verdict
    have hruled : ∀ {x s'}, x ∈ t → x.writes = some (r, s') → w.verdict q = s' := by
      intro x s' hx hk
      obtain ⟨q₂, hq₂, hv⟩ := ht x hx hs _ hk
      cases (Option.mem_def.mp hq₂).symm.trans hq
      exact hv
    refine ⟨fun hm => ?_, fun hm hf => ?_⟩
    · rcases hst with hst | hst
      · exact hst
      rcases hst.cause hq hd with ⟨-, hm'⟩ | ⟨x, hx, hk⟩
      · exact absurd hm' hm
      · rw [← hruled hx hk]
        have hg := hG x hx _ hk q hq hd
        rw [if_pos hs] at hg
        by_cases hf : q.status = .failed
        · rw [hg hf, hf]
        · exact hA r q hq hd hm hf
    · have hv : w.verdict q = q'.status := by
        rcases hst with hst | hst
        · rw [hst] at hm hf ⊢
          exact hA r q hq hd hm hf
        · rcases hst.cause hq hd with ⟨hf', -⟩ | ⟨x, hx, hk⟩
          · exact absurd hf' hf
          · exact hruled hx hk
      rw [hon.verdict hl' hs hq hq' (hv ▸ hm), hv]

theorem made_matched (h : q.made) : q.core.status = .matched := by
  rcases h with ⟨_, _, _, _, _, _, -, rfl⟩ | ⟨_, _, _, _, _, rfl⟩ <;> rfl

theorem Segment.agreed {e : Env o} (hw : Sane o w) (hA : Agreed w) (ht : ∀ x ∈ t, Ruled w x)
    (hG : Orderly w t (i, e)) (h : Segment o i t w s) : Agreed s.1 := by
  intro r q' hq' hd hm hf
  cases hv : w.view r with
  | some q =>
    obtain ⟨q₁, hq₁, -, -, -, -, hst⟩ := h.keeps.object r q hv
    cases (Option.mem_def.mp hq').symm.trans hq₁
    exact (h.decided hw hA ht hG hv hq' (hst ▸ hd)).2 hm hf
  | none =>
    obtain ⟨q, hmade, rfl | ⟨-, rfl⟩⟩ := h.created hv hq'
    · exact absurd (made_matched hmade) hm
    · exact absurd rfl hf

theorem Segment.firm {e : Env o} (hw : Sane o w) (hA : Agreed w) (ht : ∀ x ∈ t, Ruled w x)
    (hG : Orderly w t (i, e)) (h : Segment o i t w s) : Firm w s.1 where
  toOnward := h.onward
  verdict _ _ hq _ hq' hl hv := h.onward.verdict (h.sane hw).lineage hl hq hq' hv
  status _ _ hq _ hq' hd hm := (h.decided hw hA ht hG hq hq' hd).1 hm

/-- Orderly runs keep statuses and verdicts together. -/
theorem terminal_sound (o : Options) : Sound (machine o) Orderly
    (fun w => Sane o w ∧ Agreed w) (fun w x => Fits o w x ∧ Ruled w x) Firm where
  react w t e w' ts hI hT hG hM := by
    have h := segment_of_machine hI.1.wf (fun x hx => (hT x hx).1) hM
    have hr := fun x hx => (hT x hx).2
    refine ⟨⟨h.sane hI.1, h.agreed (e := e.2) hI.1 hI.2 hr hG⟩,
      h.firm (e := e.2) hI.1 hI.2 hr hG, fun x hx => ?_⟩
    exact ⟨h.fits (fun x hx => (hT x hx).1) x hx, h.ruled hI.1 (fun x hx => (hT x hx).1) x hx⟩
  stable _ _ _ _ hR hT := ⟨hR.fits hT.1, hR.ruled hT.2⟩

/-! ### Tokens -/

/-- A RESULT handed over for the requester of `r`. -/
def Output.resultOf (r : Ref) : Output → Bool
  | .sent _ (.RESULT r' _) _ => r' = r
  | _ => false

/-- A success counted for `r`. -/
def Output.successOf (r : Ref) : Output → Bool
  | .succeeded _ r' => r' = r
  | _ => false

theorem resultOf_minor (r : Ref) (out : Output) (h : out.minor) : out.resultOf r = false := by
  cases out with
  | sent n ev tr => cases ev <;> first | rfl | cases h
  | _ => rfl

theorem successOf_minor (r : Ref) (out : Output) (h : out.minor) : out.successOf r = false := by
  cases out with
  | succeeded p r' => cases h
  | _ => rfl

/-- How often a RESULT of `r` was delivered or queued. -/
def results (r : Ref) (w : World) : ℕ := w.sent (Output.resultOf r)

/-- How often a success was counted for `r`. -/
def successes (r : Ref) (w : World) : ℕ := w.sent (Output.successOf r)

/-- A handler that has counted a success of `r` and not delivered its RESULT yet. -/
def delivering (r : Ref) (x : Task) : ℕ := if x.cont.delivers = some r then 1 else 0

/-- A handler that knows from the ledger that `r` is completed and has not counted it yet. -/
def completing (r : Ref) : Task → ℕ
  | .resume (.answer _) k => if k.completes.any (fun p => p.2.1 = r) then 1 else 0
  | _ => 0

/-- How many successes a request is good for: a stage for what it got, a direct NEED for one once
    the verdict is `completed`. -/
def completions (r : Ref) (w : World) : ℕ :=
  match w.view r with
  | none => 0
  | some q =>
    if q.stage.isSome then successes r w else if w.verdict q = .completed then 1 else 0

theorem results_emit (r : Ref) (out : Output) :
    results r (w.emit out) = results r w + if out.resultOf r then 1 else 0 :=
  sent_emit w out _

theorem successes_emit (r : Ref) (out : Output) :
    successes r (w.emit out) = successes r w + if out.successOf r then 1 else 0 :=
  sent_emit w out _

theorem Quiet.results (h : Quiet w w') (r : Ref) : results r w' = results r w :=
  h.sent (resultOf_minor r)

theorem Quiet.successes (h : Quiet w w') (r : Ref) : successes r w' = successes r w :=
  h.sent (successOf_minor r)

theorem delivering_checks (hk : k.checks) (r : Ref) (a : Awaited) :
    delivering r (.resume a k) = 0 := by
  cases k <;> first | rfl | cases hk

theorem Wait.delivering (h : Wait o w s) (r : Ref) : ∀ x ∈ s.2, delivering r x = 0 := by
  intro x hx
  have hb := (h.born x hx).2
  have hk : Fresh s.1 x.cont := by
    cases x with
    | call | read => exact hb
    | resume => exact hb.2.1
  revert hk
  rw [Relay.delivering]
  cases x.cont <;> first | exact fun _ => rfl | exact fun hk => absurd hk id

theorem closeChain_counts (w : World) (chain : Ref) (status : ℕ) (now : Time) (r : Ref) :
    results r (closeChain w chain status now) = results r w ∧
      successes r (closeChain w chain status now) = successes r w :=
  ⟨closeChain_sent _ _ _ _ (resultOf_minor r), closeChain_sent _ _ _ _ (successOf_minor r)⟩

/-- A segment that counts nothing and leaves no delivery behind. -/
theorem delivering_idle {ts : List Task} (hr : results r w' = results r w)
    (hs : successes r w' = successes r w) (hts : ∀ x ∈ ts, delivering r x = 0) :
    Covered (delivering r) (results r) (successes r) w t w' ts :=
  covered_idle hr.le hs.ge hts

/-- TOKENS: a segment delivers a RESULT for a success counted before, or leaves it to one task. -/
theorem Segment.delivering (ht : ∀ x ∈ t, Fits o w x) (h : Segment o i t w s) (r : Ref) :
    Covered (delivering r) (results r) (successes r) w t s.1 s.2 := by
  cases h with
  | wait h => exact delivering_idle (h.quiet.results r) (h.quiet.successes r) (h.delivering r)
  | adopted _ _ h => exact delivering_idle (h.quiet.results r) (h.quiet.successes r) (h.delivering r)
  | expired ht' _ h =>
    refine delivering_idle (h.results r) (h.successes r) fun x hx => ?_
    obtain rfl := List.mem_singleton.mp hx
    exact delivering_checks (ht _ ht').shape.2.2 r _
  | @remembered w₁ w' k id hk _ h₁ _ _ h₂ =>
    refine delivering_idle ((h₂.results r).trans (h₁.results r))
      ((h₂.successes r).trans (h₁.successes r)) fun x hx => ?_
    obtain rfl := List.mem_singleton.mp hx
    cases k <;> cases hk <;> rfl
  | @completedStage q st p f r' chain w' _ _ _ _ _ _ _ h =>
    have hr : results r w' = results r w := h.results r
    have hs := h.successes r
    rw [successes_emit] at hs
    refine covered_idle hr.le (by rw [hs]; exact Nat.le_add_right _ _) fun x hx => ?_
    obtain rfl := List.mem_singleton.mp hx
    rfl
  | @completedLegacyStage q st m r' w' _ _ _ h =>
    have hr : results r w' = results r w := h.results r
    have hs : successes r w' = successes r w + if r' = r then 1 else 0 :=
      (h.successes r).trans (by rw [successes_emit]; simp [Output.successOf]; rfl)
    simp only [Covered, hr, hs, held_cons, held_nil, Relay.delivering, Task.cont, Cont.delivers,
      Option.some.injEq]
    omega
  | @completed a k p r' k' w' _ _ hk h =>
    have hr : results r w' = results r w := h.results r
    have hs : successes r w' = successes r w + if r' = r then 1 else 0 :=
      (h.successes r).trans (by rw [successes_emit]; simp [Output.successOf]; rfl)
    have hd : k'.delivers = some r' := by cases k <;> cases hk <;> rfl
    simp only [Covered, hr, hs, held_cons, held_nil, Relay.delivering, Task.cont, hd,
      Option.some.injEq]
    omega
  | @delivered a k r' n body tr w' ht' _ hk h =>
    have hs : successes r w' = successes r w := h.successes r
    have hr : results r w' = results r w + if r' = r then 1 else 0 :=
      (h.results r).trans (by rw [results_emit]; simp [Output.resultOf])
    simp only [Covered, hr, hs, ht', holds?_some, held_nil, Relay.delivering, Task.cont, hk,
      Option.some.injEq]
    omega
  | entered _ h₁ _ _ _ _ _ _ h₂ hts =>
    refine delivering_idle ((h₂.results r).trans (h₁.results r))
      ((h₂.successes r).trans (h₁.successes r)) fun x hx => ?_
    rcases hts with ⟨-, rfl⟩ | ⟨-, rfl⟩
    · obtain rfl := List.mem_singleton.mp hx
      rfl
    · exact absurd hx List.not_mem_nil
  | closed _ h =>
    exact delivering_idle ((h.results r).trans (closeChain_counts _ _ _ _ r).1)
      ((h.successes r).trans (closeChain_counts _ _ _ _ r).2) (by simp)
  | stageSent _ _ h₁ _ h₂ =>
    exact delivering_idle ((h₂.results r).trans (h₁.results r))
      ((h₂.successes r).trans (h₁.successes r)) (by simp)
  | stored _ _ _ _ hw₁ h =>
    subst hw₁
    rcases h with ⟨_, _, h, rfl⟩ | ⟨h, rfl⟩
    · exact delivering_idle ((h.results r).trans (closeChain_counts _ _ _ _ r).1)
        ((h.successes r).trans (closeChain_counts _ _ _ _ r).2) (by simp)
    · exact delivering_idle (h.results r) (h.successes r)
        (by simp [Relay.delivering, Task.cont, Cont.delivers])
  | dispatched _ _ _ _ _ h | cancelled _ _ h | streamed _ _ _ h | spilled _ _ _ h
  | repeated _ _ _ h | refused _ _ _ _ h | refusedByLedger _ _ h =>
    exact delivering_idle (h.results r) (h.successes r) (by simp)
  | @executed c k a now ht' _ =>
    simp only [Covered, ht', holds?_some, held_cons, held_nil]
    exact le_refl _
  | @dropped c k f ts ht' _ hts =>
    have hz : held (Relay.delivering r) ts = 0 := by rcases hts with rfl | rfl <;> rfl
    simp only [Covered, ht', holds?_some, held_cons, hz]
    exact le_refl _
  | @read id k a ht' _ =>
    simp only [Covered, ht', holds?_some, held_cons, held_nil]
    exact le_refl _
  | peer _ => exact delivering_idle rfl rfl (by simp)
  | timeout _ _ _ =>
    exact delivering_idle (closeChain_counts _ _ _ _ r).1 (closeChain_counts _ _ _ _ r).2 (by simp)

/-- What is decided stays decided. -/
theorem Firm.decided (h : Firm w w') (hq : q ∈ w.view r) (hq' : q' ∈ w'.view r)
    (hd : q.stage = none) (hv : w.verdict q ≠ .matched) :
    w'.verdict q' = w.verdict q := by
  cases hl : w.ledger with
  | some b => exact h.verdict r q hq q' hq' (by rw [hl]; rfl) hv
  | none =>
    have hl' : w'.ledger = none := by simpa [hl] using h.ledger
    rw [verdict_alone hl] at hv
    rw [verdict_alone hl, verdict_alone hl']
    exact h.status r q hq q' hq' hd hv

theorem completions_mono (h : Firm w w') (r : Ref) (hs : successes r w ≤ successes r w') :
    completions r w ≤ completions r w' := by
  unfold completions
  cases hv : w.view r with
  | none => exact Nat.zero_le _
  | some q =>
    obtain ⟨q', hq', -, -, -, -, hst⟩ := h.object r q hv
    rw [hq']
    simp only [hst]
    split
    · exact hs
    · next hd =>
      have hd : q.stage = none := by simpa using hd
      split
      · next hc =>
        rw [if_pos ((h.decided hv hq' hd (by rw [hc]; simp)).trans hc)]
      · exact Nat.zero_le _

/-- Only the ledger lets a completion through. -/
theorem Segment.completes (h : Segment o i t w s) (r : Ref) :
    (∀ x ∈ s.2, completing r x = 0) ∨ ∃ c k now, t = some (.call c k) ∧
      s = ((execCall w c [] now).1, [.resume (execCall w c [] now).2 k]) := by
  by_cases hcall : ∃ c k now, t = some (.call c k) ∧
      s = ((execCall w c [] now).1, [.resume (execCall w c [] now).2 k])
  · exact .inr hcall
  left
  intro x hx
  cases x with
  | call | read => rfl
  | resume a k =>
    rcases h.reply hx with rfl | ⟨f, rfl, -⟩ | ⟨c, now, ht, -, rfl, hs⟩ | ⟨id, age, -, -, rfl⟩
    · rfl
    · rfl
    · exact absurd ⟨c, k, now, ht, hs⟩ hcall
    · rfl

theorem settles_of_completes {k' : Cont} {p : Id} (h : k.completes = some (p, r, k')) :
    k.settles = some (r, .completed) := by
  cases k <;> cases h <;> rfl

theorem direct_of_completes {k' : Cont} {p : Id} (h : k.completes = some (p, r, k'))
    (hs : Shape o w k) : ∃ q ∈ w.view r, q.stage = none := by
  cases k <;> cases h
  all_goals
    obtain ⟨q, hq, -, -, hst⟩ := hs
    exact ⟨q, hq, hst⟩

/-- A terminal status that is set stays through bookkeeping. -/
theorem Quiet.view_status {u : World} {status : NeedStatus} (h : Quiet u w')
    (hu : u.view = (w.setStatus r status).view) (hq : q ∈ w.view r) (hs : status ≠ .matched) :
    w'.view r = some { q with status := status } := by
  have hv : u.view r = some { q with status := status } := by
    rw [hu, view_setStatus, if_pos rfl, Option.mem_def.mp hq]; rfl
  rcases h.view r with hv' | ⟨-, q₁, hq₁, -, hm, -⟩
  · exact hv'.trans hv
  · cases hv.symm.trans hq₁
    exact absurd hm hs

/-- How a segment counts a success. -/
theorem Segment.successes (ht : ∀ x ∈ t, Fits o w x) (h : Segment o i t w s) (r : Ref) :
    successes r s.1 = successes r w ∨ (successes r s.1 = successes r w + 1 ∧
      ((∃ q ∈ w.view r, q.stage.isSome) ∨ (∃ q ∈ s.1.view r, q.status = .completed) ∧
        ∃ a k p k', t = some (.resume a k) ∧ a.failed = false ∧ k.completes = some (p, r, k'))) := by
  cases h with
  | wait h | adopted _ _ h => exact .inl (h.quiet.successes r)
  | expired _ _ h | dispatched _ _ _ _ _ h | cancelled _ _ h | streamed _ _ _ h | spilled _ _ _ h
  | repeated _ _ _ h | refused _ _ _ _ h | refusedByLedger _ _ h | delivered _ _ _ h =>
    exact .inl (h.successes r)
  | remembered _ _ h₁ _ _ h₂ | entered _ h₁ _ _ _ _ _ _ h₂ _ | stageSent _ _ h₁ _ h₂ =>
    exact .inl ((h₂.successes r).trans (h₁.successes r))
  | @completedStage q st p f r' chain w' hq _ hs _ _ _ _ h =>
    have hc := h.successes r
    rw [successes_emit] at hc
    by_cases hr : r' = r
    · subst hr
      exact .inr ⟨hc.trans (by simp [Output.successOf]; rfl), .inl ⟨q, hq, by rw [hs]; rfl⟩⟩
    · exact .inl (hc.trans (by simp [Output.successOf, hr]; rfl))
  | @completedLegacyStage q st m r' w' hq _ hs h =>
    have hc := h.successes r
    rw [successes_emit] at hc
    by_cases hr : r' = r
    · subst hr
      exact .inr ⟨hc.trans (by simp [Output.successOf]; rfl), .inl ⟨q, hq, by rw [hs]; rfl⟩⟩
    · exact .inl (hc.trans (by simp [Output.successOf, hr]; rfl))
  | @completed a k p r' k' w' ht' ha hk h =>
    have hc := h.successes r
    rw [successes_emit] at hc
    by_cases hr : r' = r
    · subst hr
      obtain ⟨q, hq, -⟩ := direct_of_completes hk (ht _ ht').shape
      exact .inr ⟨hc.trans (by simp [Output.successOf]; rfl),
        .inr ⟨⟨_, h.view_status rfl hq (by simp), rfl⟩, a, k, p, k', ht', ha, hk⟩⟩
    · exact .inl (hc.trans (by simp [Output.successOf, hr]; rfl))
  | closed _ h => exact .inl ((h.successes r).trans (closeChain_counts _ _ _ _ r).2)
  | stored _ _ _ _ hw₁ h =>
    subst hw₁
    rcases h with ⟨_, _, h, -⟩ | ⟨h, -⟩
    · exact .inl ((h.successes r).trans (closeChain_counts _ _ _ _ r).2)
    · exact .inl (h.successes r)
  | executed | dropped | read | peer => exact .inl rfl
  | timeout => exact .inl (closeChain_counts _ _ _ _ r).2

/-- What the ledger answers a completion makes room for its success. -/
theorem exec_completing (hF : Fits o w (.call c k)) (h : Firm w (execCall w c [] now).1) (r : Ref) :
    completing r (.resume (execCall w c [] now).2 k) + completions r w ≤
      completions r (execCall w c [] now).1 := by
  have hmono := completions_mono h r (le_refl (Relay.successes r w))
  by_cases hc : completing r (.resume (execCall w c [] now).2 k) = 0
  · omega
  obtain ⟨hl, hs, hask⟩ := hF
  rcases Ledger.execute_replied w.ledger c [] now with ⟨f, hf⟩ | ⟨b, hb⟩
  · exact absurd (by rw [execCall, hf]; rfl) hc
  have hk : ∃ p k', k.completes = some (p, r, k') := by
    rw [execCall, hb, completing] at hc
    obtain ⟨⟨p, r', k'⟩, hk, hr⟩ := (Option.any_eq_true _ _).mp (of_not_not fun hn => hc (if_neg hn))
    exact ⟨p, k', by rw [hk]; simpa using hr⟩
  obtain ⟨p, k', hk⟩ := hk
  obtain ⟨c', rfl, hto, q, hq, hid⟩ := asked_transition hs hask (settles_of_completes hk)
  obtain ⟨q₀, hq₀, hd⟩ := direct_of_completes hk hs
  cases (Option.mem_def.mp hq₀).symm.trans hq
  have hok : (Ledger.execute w.ledger (.transitionNeed c') [] now).2.failed = false := by
    rw [hb]; rfl
  obtain ⟨hafter, hbefore⟩ := Ledger.execute_transition hok
  have h0 : completions r w = 0 := by
    rw [completions, Option.mem_def.mp hq]
    simp only [hd, Option.isSome_none, Bool.false_eq_true, if_false]
    rw [if_neg]
    rw [World.verdict, if_pos hl, ← hid, hbefore (by rw [hto]; simp)]
    simp
  have h1 : completions r (execCall w (.transitionNeed c') [] now).1 = 1 := by
    rw [completions, show (execCall w (.transitionNeed c') [] now).1.view r = some q from hq]
    simp only [hd, Option.isSome_none, Bool.false_eq_true, if_false]
    rw [if_pos]
    rw [World.verdict, if_pos (h.ledger.trans hl), ← hid]
    exact hafter.trans hto
  have hle : completing r (.resume (execCall w (.transitionNeed c') [] now).2 k) ≤ 1 := by
    rw [execCall, hb, completing]
    split <;> omega
  omega

/-- TOKENS: an orderly segment counts a success that the verdict allows. -/
theorem Segment.completing {e : Env o} (hw : Sane o w) (hA : Agreed w)
    (ht : ∀ x ∈ t, Fits o w x ∧ Ruled w x) (hG : Orderly w t (i, e)) (h : Segment o i t w s)
    (r : Ref) :
    Covered (completing r) (Relay.successes r) (completions r) w t s.1 s.2 := by
  have hF := h.firm hw hA (fun x hx => (ht x hx).2) hG
  rcases h.completes r with hz | ⟨c, k, now, rfl, rfl⟩
  swap
  · have := exec_completing (ht _ rfl).1 hF r
    have hs : Relay.successes r (execCall w c [] now).1 = Relay.successes r w := rfl
    simp only [Covered, held_cons, held_nil, hs]
    omega
  rcases h.successes (fun x hx => (ht x hx).1) r with hs | ⟨hs, hcause⟩
  · exact covered_idle hs.le (completions_mono hF r hs.ge) hz
  have hmono := completions_mono hF r (by omega)
  have hz' : held (Relay.completing r) s.2 = 0 := held_zero hz
  rw [Covered, hs, hz']
  rcases hcause with ⟨q, hq, hst⟩ | ⟨⟨q', hq', hst⟩, a, k, p, k', rfl, ha, hk⟩
  · obtain ⟨q', hq', -, -, -, -, hst'⟩ := hF.object r q hq
    have hc : completions r w = Relay.successes r w := by
      rw [completions, Option.mem_def.mp hq]
      exact if_pos hst
    have hc' : completions r s.1 = Relay.successes r s.1 := by
      rw [completions, Option.mem_def.mp hq']
      exact if_pos (hst' ▸ hst)
    omega
  · cases a with
    | fault f => cases ha
    | record d =>
      have hk' := (ht _ rfl).1.2.2
      rw [asks_of_settles (settles_of_completes hk)] at hk'
      cases hk'
    | answer b =>
      have : holds? (Relay.completing r) (some (.resume (.answer b) k)) = 1 := by
        rw [holds?_some, Relay.completing, hk]
        exact if_pos (by simp)
      omega
    | nothing =>
      -- without a ledger an orderly completion finds its request matched
      have hl := (ht _ rfl).1.2.1 (asks_of_settles (settles_of_completes hk))
      have hl' : s.1.ledger = none := by simpa [hl] using hF.ledger
      obtain ⟨q, hq, hd⟩ := direct_of_completes hk (ht _ rfl).1.shape
      obtain ⟨q₁, hq₁, -, -, -, -, hd'⟩ := hF.object r q hq
      cases (Option.mem_def.mp hq').symm.trans hq₁
      have hg := hG _ rfl _ (writes_settles ha (settles_of_completes hk)) q hq hd
      rw [hl] at hg
      have hm : q.status = .matched := by
        by_contra hne
        cases (hg hne).2
      have h0 : completions r w = 0 := by
        rw [completions, Option.mem_def.mp hq]
        simp [hd, verdict_alone hl, hm]
      have h1 : completions r s.1 = 1 := by
        rw [completions, Option.mem_def.mp hq']
        simp [hd', hd, verdict_alone hl', hst]
      omega

/-! ### Every NEED ends once -/

/-- What `terminal_sound` keeps of a system. -/
abbrev Settled (o : Options) : Sys World Task → Prop :=
  Holds (fun w => Sane o w ∧ Agreed w) (fun w x => Fits o w x ∧ Ruled w x)

theorem settled_init (o : Options) {ledger : Option Book} (hl : ∀ b ∈ ledger, ∀ id, b id = []) :
    Settled o (init ledger) :=
  ⟨⟨(holds_init o hl).1, by simp [Agreed, init, World.start, World.view]⟩,
    fun _ h => absurd h List.not_mem_nil⟩

/-- Along an orderly run a direct request stays, and its status once it left `matched`. -/
theorem status_along {s s' : Sys World Task} (hs : Settled o s)
    (h : Runs (machine o) Orderly s s') : ∀ q ∈ s.shared.view r, q.stage = none →
      ∃ q' ∈ s'.shared.view r, q'.stage = none ∧ (q.status ≠ .matched → q'.status = q.status) := by
  refine h.along (terminal_sound o) (Q := fun w w' => ∀ q ∈ w.view r, q.stage = none →
    ∃ q' ∈ w'.view r, q'.stage = none ∧ (q.status ≠ .matched → q'.status = q.status)) ?_ ?_ hs
  · exact fun w q hq hd => ⟨q, hq, hd, fun _ => rfl⟩
  · intro u v w huv hvw q hq hd
    obtain ⟨q₁, hq₁, hd₁, hs₁⟩ := huv q hq hd
    obtain ⟨q₂, hq₂, -, -, -, -, hd₂⟩ := hvw.object r q₁ hq₁
    refine ⟨q₂, hq₂, hd₂.trans hd₁, fun hm => ?_⟩
    have hm₁ : q₁.status ≠ .matched := by rwa [hs₁ hm]
    exact (hvw.status r q₁ hq₁ q₂ hq₂ hd₁ hm₁).trans (hs₁ hm)

/-- Every success is covered by the verdict, and every RESULT by a success. -/
theorem counts_le {ledger : Option Book} (hl : ∀ b ∈ ledger, ∀ id, b id = []) {s : Sys World Task}
    (h : Runs (machine o) Orderly (init ledger) s) (r : Ref) :
    results r s.shared ≤ successes r s.shared ∧
      successes r s.shared ≤ completions r s.shared := by
  have h0 := settled_init o hl
  have hA := Runs.within (terminal_sound o) (delivering r) (results r) (successes r)
    (fun w t x w' ts hI hT _ hM => (segment_of_machine hI.1.wf (fun x hx => (hT x hx).1)
      hM).delivering (fun x hx => (hT x hx).1) r) h h0 (Nat.le_refl 0)
  have hB := Runs.within (terminal_sound o) (completing r) (successes r) (completions r)
    (fun w t x w' ts hI hT hG hM => (segment_of_machine hI.1.wf (fun x hx => (hT x hx).1)
      hM).completing (e := x.2) hI.1 hI.2 hT hG r) h h0 (Nat.zero_le _)
  omega

/-- TERMINAL: in a run whose segments are all orderly, a direct NEED that left `matched` keeps its
    status for good, and it is counted as a success, and its RESULT handed over, at most once. -/
theorem terminal_once (o : Options) (ledger : Option Book) (hl : ∀ b ∈ ledger, ∀ id, b id = [])
    {s : Sys World Task} (h : Runs (machine o) Orderly (init ledger) s) {r : Ref} {q : Request}
    (hq : s.shared.objs[r]? = some q) (hd : q.stage = none) :
    results r s.shared ≤ successes r s.shared ∧ successes r s.shared ≤ 1 ∧
      (0 < successes r s.shared → s.shared.verdict q = .completed) ∧
      ∀ s', Runs (machine o) Orderly s s' → ∃ q', s'.shared.objs[r]? = some q' ∧
        (q.status ≠ .matched → q'.status = q.status) := by
  have hv : s.shared.view r = some q.core := view_of_get hq
  obtain ⟨hrs, hsc⟩ := counts_le hl h r
  have hc : completions r s.shared = if s.shared.verdict q = .completed then 1 else 0 := by
    rw [completions, hv]
    exact if_neg (by simp [Request.core, hd])
  refine ⟨hrs, ?_, fun hpos => ?_, fun s' h' => ?_⟩
  · split at hc <;> omega
  · by_contra hne
    rw [if_neg hne] at hc
    omega
  · obtain ⟨q', hq', -, hst⟩ :=
      status_along (h.sound (terminal_sound o) (settled_init o hl)) h' q.core hv hd
    obtain ⟨q'', hq'', rfl⟩ := Option.map_eq_some_iff.mp hq'
    exact ⟨q'', hq'', hst⟩

/-- The RESULT of NEED 9. -/
def answerNeed : Label (Input × Env small) :=
  arrive (.fastResult [2] (signed .RESULT [9] [2]))

/-- Node 1 takes NEED 9 back. -/
def revokeNine : Label (Input × Env small) :=
  arrive (.revoke ⟨[7], [1], 0, none, [], [9], .need⟩)

/-- NEED 9 is answered once: its status stays `completed`, and it has one RESULT. -/
theorem answered_need_completed : ∃ s q, Runs (machine small) Orderly (init none) s ∧
    s.shared.objs[0]? = some q ∧ q.status = .completed ∧ results 0 s.shared = 1 ∧
    successes 0 s.shared ≤ 1 ∧ ∀ s', Runs (machine small) Orderly s s' →
      ∃ q', s'.shared.objs[0]? = some q' ∧ q'.status = .completed := by
  obtain ⟨s, h, hs⟩ := exists_run (M := machine small) (s := init none)
    (fun w t x => decide (Orderly w t x)) (fun _ _ _ => of_decide_eq_true)
    (askNeed ++ [answerNeed, goOn 0, goOn 0, goOn 0])
    (fun s => (s.shared.objs[0]?).any (fun q => q.status = .completed ∧ q.stage = none) ∧
      results 0 s.shared = 1) (by decide)
  obtain ⟨hs, hone⟩ := of_decide_eq_true hs
  obtain ⟨q, hq, hst⟩ := (Option.any_eq_true _ _).mp hs
  obtain ⟨hc, hd⟩ := of_decide_eq_true hst
  obtain ⟨-, hle, -, hstay⟩ := terminal_once small none (by simp) h hq hd
  refine ⟨s, q, h, hq, hc, hone, hle, fun s' h' => ?_⟩
  obtain ⟨q', hq', hst'⟩ := hstay s' h'
  exact ⟨q', hq', (hst' (by rw [hc]; simp)).trans hc⟩

/-- Without a ledger, two RESULTs that are both checked before either is committed are both counted
    and handed over; and a REVOKE that was checked before a RESULT was committed cancels a completed
    NEED. -/
theorem results_raced :
    (∃ s, Runs (machine small) free (init none) s ∧ results 0 s.shared = 2 ∧
      successes 0 s.shared = 2 ∧
      ∃ q, s.shared.objs[0]? = some q ∧ q.stage = none) ∧
    ∃ s s', Runs (machine small) free (init none) s ∧ Runs (machine small) free s s' ∧
      ∃ q q', s.shared.objs[0]? = some q ∧ q.stage = none ∧ q.status = .completed ∧
        s'.shared.objs[0]? = some q' ∧ q'.status = .cancelled := by
  constructor
  · obtain ⟨s, h, hs⟩ := exists_run (M := machine small) (s := init none) (fun _ _ _ => true)
      (fun _ _ _ _ => trivial)
      (askNeed ++ [answerNeed, answerNeed, goOn 0, goOn 0, goOn 0, goOn 0, goOn 0, goOn 0])
      (fun s => results 0 s.shared = 2 ∧ successes 0 s.shared = 2 ∧
        (s.shared.objs[0]?).any fun q => q.stage = none) (by decide)
    obtain ⟨hr, hc, hq⟩ := of_decide_eq_true hs
    obtain ⟨q, hq, hd⟩ := (Option.any_eq_true _ _).mp hq
    exact ⟨s, h, hr, hc, q, hq, of_decide_eq_true hd⟩
  · obtain ⟨s, h, hs⟩ := exists_run (M := machine small) (s := init none) (fun _ _ _ => true)
      (fun _ _ _ _ => trivial)
      (askNeed ++ [answerNeed, revokeNine, goOn 0, goOn 0, goOn 0])
      (fun s => (s.shared.objs[0]?).any (fun q => q.stage = none ∧ q.status = .completed) ∧
        (replay (machine small) (fun _ _ _ => true) s [goOn 0]).any fun s' =>
          (s'.shared.objs[0]?).any fun q => q.status = .cancelled) (by decide)
    obtain ⟨hq, hrest⟩ := of_decide_eq_true hs
    obtain ⟨q, hq, hst⟩ := (Option.any_eq_true _ _).mp hq
    obtain ⟨hd, hst⟩ := of_decide_eq_true hst
    obtain ⟨s', h', hs'⟩ := exists_run (fun _ _ _ => true) (fun _ _ _ _ => trivial) [goOn 0] _ hrest
    obtain ⟨q', hq', hst'⟩ := (Option.any_eq_true _ _).mp hs'
    exact ⟨s, s', h, h', q, q', hq, hd, hst, hq', of_decide_eq_true hst'⟩

end Truyn.Relay
