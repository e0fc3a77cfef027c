import Truyn.Relay.Admission

/-! admission:need-replay | the replay guard of direct QUIC streams

    `createNeedReplayGuard` lets each NEED id through once: without a ledger by a set that is never
    emptied and with no await between check and insertion, with a ledger by its atomic reservation.
    The stream handler runs right after `admit` returns, so an admission is an execution. -/

namespace Truyn.Admission
open Async
open Ledger (Fault Time Awaited Book Call Reservation Record execute hostFault versions History
  reservations)
open Relay (Id insideAdmissionWindow duplicateRequest)

inductive EnvelopeType | NEED | other
  deriving DecidableEq

/-- A verified envelope: `recipient` is its `to`, `capability` is `none` when it is no string,
    `createdAt` when it is no date. -/
structure Envelope where
  type : EnvelopeType
  id : Id
  sender : Id
  recipient : Option Id
  capability : Option JsString
  createdAt : Option Time
  fingerprint : JsString
  policyDigest : JsString
  deriving DecidableEq

/-- The arguments of `createNeedReplayGuard`. -/
structure GuardOptions where
  provider : Id
  maxSeenNeedIds : ℕ

/-- The memory of a guard; `outcomes` are the ends of `admit`, `none` when it let the envelope
    through, latest first. -/
structure Guard where
  seen : List Id
  ledger : Option Book
  outcomes : List (Envelope × Option Fault)

inductive Task
  | read (m : Envelope)
  | looked (a : Awaited) (m : Envelope)
  | call (c : Reservation) (m : Option Envelope)
  | reserved (a : Awaited) (m : Envelope)

def Guard.finish (g : Guard) (m : Envelope) (outcome : Option Fault) : Guard × List Task :=
  ({ g with outcomes := (m, outcome) :: g.outcomes }, [])

/-- `assertNeedAdmissionWindow`. -/
def insideWindow (m : Envelope) (now : Time) : Bool :=
  m.createdAt.any fun createdAt => insideAdmissionWindow createdAt now

def outsideWindow : Fault := ⟨400, "need_outside_acceptance_window"⟩

/-- What the guard refuses before it looks at the id. -/
def refuse (o : GuardOptions) (m : Envelope) : Option Fault :=
  if m.recipient.any (· ≠ o.provider) then some ⟨403, "need_recipient_mismatch"⟩
  else if m.capability.all blank then some ⟨400, "invalid_capability"⟩
  else none

/-- `admit`, up to its first await. -/
def admitNeed (o : GuardOptions) (g : Guard) (now : Time) (m : Envelope) : Guard × List Task :=
  if m.type ≠ .NEED then g.finish m none
  else
    match refuse o m with
    | some f => g.finish m (some f)
    | none =>
      if g.ledger.isSome then (g, [.read m])
      else if m.id ∈ g.seen then g.finish m (some duplicateRequest)
      else if !insideWindow m now then g.finish m (some outsideWindow)
      else if o.maxSeenNeedIds ≤ g.seen.length then
        g.finish m (some ⟨503, "need_idempotency_capacity_reached"⟩)
      else Guard.finish { g with seen := g.seen ++ [m.id] } m none

/-- The reservation of a NEED of a stream. -/
def reservation (o : GuardOptions) (m : Envelope) : Reservation :=
  ⟨m.id, m.sender, o.provider, m.fingerprint, m.capability.getD [], js "quic", m.sender,
    m.policyDigest, none, none⟩

/-- `admit` once it knows the ledger's record. -/
def afterLook (o : GuardOptions) (g : Guard) (now : Time) (a : Awaited) (m : Envelope) :
    Guard × List Task :=
  match a with
  | .fault f => g.finish m (some f)
  | a =>
    if a.need.isSome then g.finish m (some duplicateRequest)
    else if !insideWindow m now then g.finish m (some outsideWindow)
    else (g, [.call (reservation o m) (some m)])

/-- `admit` once the ledger has answered its reservation. -/
def afterReserve (g : Guard) (a : Awaited) (m : Envelope) : Guard × List Task :=
  match a with
  | .fault f => g.finish m (some f)
  | _ => g.finish m none

/-- The ledger executes a call. -/
def execCall (g : Guard) (c : Call) (about : Id) (now : Time) : Guard × Awaited :=
  ({ g with ledger := (execute g.ledger c about now).1 }, (execute g.ledger c about now).2)

/-- Go on with a reservation whose caller still waits. -/
def reply (a : Awaited) (m : Option Envelope) : List Task := m.toList.map fun m => .reserved a m

/-- What happens next, as for a relay. -/
inductive Input
  | start (m : Envelope)
  | go
  | exec
  | lose (f : Fault)
  | giveUp (f : Fault)
  | fail (f : Fault)
  | read (age : ℕ)
  | peer (c : Call) (about : Id)

/-- One guard. -/
def machine (o : GuardOptions) : Machine Guard Task (Input × Time)
  | g, none, (.start m, now) => some (admitNeed o g now m)
  | g, none, (.peer c about, now) => some ((execCall g c about now).1, [])
  | g, some (.read m), (.read age, _) =>
    some (g, [.looked (.record (History.record ((versions g.ledger m.id).drop age))) m])
  | g, some (.read m), (.fail f, _) => if hostFault f then some (g, [.looked (.fault f) m]) else none
  | g, some (.call c m), (.exec, now) =>
    some ((execCall g (.reserveNeed c) [] now).1,
      reply (execCall g (.reserveNeed c) [] now).2 m)
  | g, some (.call c m), (.lose f, now) =>
    if hostFault f then some ((execCall g (.reserveNeed c) [] now).1, reply (.fault f) m) else none
  | g, some (.call c m), (.giveUp f, _) =>
    if hostFault f then some (g, reply (.fault f) m ++ [.call c none]) else none
  | g, some (.call _ m), (.fail f, _) => if hostFault f then some (g, reply (.fault f) m) else none
  | g, some (.looked a m), (.go, now) => some (afterLook o g now a m)
  | g, some (.reserved a m), (.go, _) => some (afterReserve g a m)
  | _, _, _ => none

/-- A guard that has just been created. -/
def init (ledger : Option Book) : Sys Guard Task := ⟨⟨[], ledger, []⟩, []⟩

/-! ### Tokens -/

/-- `admit` let this NEED through. -/
def lets (id : Id) (outcome : Envelope × Option Fault) : Bool :=
  outcome.1.type = .NEED ∧ outcome.1.id = id ∧ outcome.2 = none

/-- How often a NEED was let through. -/
def admissions (id : Id) (g : Guard) : ℕ := g.outcomes.countP (lets id)

/-- A reservation that was answered and not returned yet. -/
def admitting (id : Id) : Task → ℕ
  | .reserved a m => if a.failed = false ∧ m.id = id then 1 else 0
  | _ => 0

/-- How often the ledger, or the guard itself, let a NEED id through. -/
def allowance (id : Id) (g : Guard) : ℕ :=
  match g.ledger with
  | none => g.seen.count id
  | some b => reservations (some b) id

/-- A reservation in flight is that of the envelope waiting for it. -/
def Fits (g : Guard) : Task → Prop
  | .read m => g.ledger.isSome ∧ m.type = .NEED
  | .looked _ m => g.ledger.isSome ∧ m.type = .NEED
  | .call c m => g.ledger.isSome ∧ ∀ m' ∈ m, m'.id = c.id ∧ m'.type = .NEED
  | .reserved _ m => m.type = .NEED

/-- What holds of every guard, and of every ledger it uses. -/
structure Sane (o : GuardOptions) (g : Guard) : Prop where
  lineage : ∀ id, Ledger.Abstract (versions g.ledger id)
  seen : g.seen.Nodup
  room : g.seen.length ≤ o.maxSeenNeedIds

/-- What a run may change only one way. -/
structure Onward (g g' : Guard) : Prop where
  ledger : g'.ledger.isSome = g.ledger.isSome
  seen : g.seen <+: g'.seen

variable {o : GuardOptions} {g g' : Guard} {t : Option Task}

theorem admissions_finish (g : Guard) (m : Envelope) (outcome : Option Fault) (id : Id) :
    admissions id (g.finish m outcome).1 =
      admissions id g + if lets id (m, outcome) then 1 else 0 :=
  List.countP_cons

theorem lets_fault (id : Id) (m : Envelope) (f : Fault) : lets id (m, some f) = false := by
  simp [lets]

/-- What one segment does: it ends `admit` without letting a NEED through or goes on to the ledger,
    lets a NEED through, or executes a call. -/
inductive Segment (o : GuardOptions) (t : Option Task) (g : Guard) : Guard × List Task → Prop
  | finished {m outcome} : (m.type = .NEED → outcome.isSome) →
      Segment o t g (g.finish m outcome)
  | waits {ts} : ts.length ≤ 2 → (∀ x ∈ ts, Fits g x ∧ ∀ id, admitting id x = 0) →
      Segment o t g (g, ts)
  | remembered {m} : m.type = .NEED → g.ledger = none → m.id ∉ g.seen →
      g.seen.length < o.maxSeenNeedIds →
      Segment o t g (Guard.finish { g with seen := g.seen ++ [m.id] } m none)
  | passed {a m} : t = some (.reserved a m) → a.failed = false →
      Segment o t g (g.finish m none)
  | executed {c m a now} : t = some (.call c m) →
      a = (execCall g (.reserveNeed c) [] now).2 ∨ a.failed = true →
      Segment o t g ((execCall g (.reserveNeed c) [] now).1, reply a m)
  | peer {c about now} : Segment o t g ((execCall g c about now).1, [])

theorem admitNeed_segment (now : Time) (m : Envelope) : Segment o t g (admitNeed o g now m) := by
  unfold admitNeed
  split
  · next h => exact .finished fun h' => absurd h' h
  next hm =>
  split
  · exact .finished fun _ => rfl
  split
  · next hl =>
    refine .waits (by simp) fun x hx => ?_
    obtain rfl := List.mem_singleton.mp hx
    exact ⟨⟨hl, not_not.mp hm⟩, fun _ => rfl⟩
  next hl =>
  split
  · exact .finished fun _ => rfl
  next hfresh =>
  split
  · exact .finished fun _ => rfl
  split
  · exact .finished fun _ => rfl
  · next hcap => exact .remembered (not_not.mp hm) (by simpa using hl) hfresh (not_le.mp hcap)

theorem afterLook_segment {a : Awaited} {m : Envelope} (now : Time) (hl : g.ledger.isSome)
    (hm : m.type = .NEED) : Segment o t g (afterLook o g now a m) := by
  unfold afterLook
  split
  · exact .finished fun _ => rfl
  split
  · exact .finished fun _ => rfl
  split
  · exact .finished fun _ => rfl
  · refine .waits (by simp) fun x hx => ?_
    obtain rfl := List.mem_singleton.mp hx
    refine ⟨⟨hl, fun m' hm' => ?_⟩, fun _ => rfl⟩
    cases hm'
    exact ⟨rfl, hm⟩

/-- A failed call leaves its waiter with the fault, and perhaps itself in flight. -/
theorem reply_waits {c : Reservation} {m : Option Envelope} {f : Fault} {ts : List Task}
    (hf : Fits g (.call c m)) (hts : ts = [] ∨ ts = [.call c none]) :
    Segment o t g (g, reply (.fault f) m ++ ts) := by
  refine .waits ?_ fun x hx => ?_
  · cases m <;> rcases hts with rfl | rfl <;> simp [reply]
  · rcases List.mem_append.mp hx with hx | hx
    · cases m with
      | none => cases hx
      | some m =>
        obtain rfl := List.mem_singleton.mp hx
        exact ⟨(hf.2 m rfl).2, fun _ => by simp [admitting, Awaited.failed]⟩
    · rcases hts with rfl | rfl
      · cases hx
      · obtain rfl := List.mem_singleton.mp hx
        exact ⟨⟨hf.1, by simp⟩, fun _ => rfl⟩

theorem segment_of_machine (ht : ∀ x ∈ t, Fits g x) {x : Input × Time} {g' : Guard}
    {ts : List Task} (h : machine o g t x = some (g', ts)) : Segment o t g (g', ts) := by
  obtain ⟨x, now⟩ := x
  cases t with
  | none =>
    cases x with
    | start m => exact Option.some.inj h ▸ admitNeed_segment now m
    | peer c about =>
      cases h
      exact .peer
    | _ => cases h
  | some y =>
    have hy := ht y rfl
    cases y with
    | read m =>
      cases x with
      | read age =>
        cases h
        refine .waits (by simp) fun x hx => ?_
        obtain rfl := List.mem_singleton.mp hx
        exact ⟨hy, fun _ => rfl⟩
      | fail f =>
        obtain ⟨-, h⟩ := Option.ite_none_right_eq_some.mp h
        cases h
        refine .waits (by simp) fun x hx => ?_
        obtain rfl := List.mem_singleton.mp hx
        exact ⟨hy, fun _ => rfl⟩
      | _ => cases h
    | looked a m =>
      cases x with
      | go => exact Option.some.inj h ▸ afterLook_segment now hy.1 hy.2
      | _ => cases h
    | reserved a m =>
      cases x with
      | go =>
        cases a with
        | fault f => exact Option.some.inj h ▸ .finished fun _ => rfl
        | nothing => exact Option.some.inj h ▸ .passed rfl rfl
        | record r => exact Option.some.inj h ▸ .passed rfl rfl
        | answer b => exact Option.some.inj h ▸ .passed rfl rfl
      | _ => cases h
    | call c m =>
      cases x with
      | exec =>
        cases h
        exact .executed rfl (.inl rfl)
      | lose f =>
        obtain ⟨-, h⟩ := Option.ite_none_right_eq_some.mp h
        cases h
        exact .executed rfl (.inr rfl)
      | giveUp f =>
        obtain ⟨-, h⟩ := Option.ite_none_right_eq_some.mp h
        cases h
        exact reply_waits hy (.inr rfl)
      | fail f =>
        obtain ⟨-, h⟩ := Option.ite_none_right_eq_some.mp h
        cases h
        simpa using reply_waits hy (.inl rfl)
      | _ => cases h

theorem allowance_ledger (hl : g.ledger.isSome) (id : Id) :
    allowance id g = reservations g.ledger id := by
  obtain ⟨b, hb⟩ := Option.isSome_iff_exists.mp hl
  rw [allowance, hb]

theorem exec_allowance (g : Guard) (c : Call) (about : Id) (now : Time) (id : Id) :
    allowance id g ≤ allowance id (execCall g c about now).1 := by
  cases hl : g.ledger with
  | none => simp only [allowance, execCall, execute, hl, le_refl]
  | some b =>
    have hs : g.ledger.isSome := by rw [hl]; rfl
    have hs' := (Ledger.execute_isSome g.ledger c about now).trans hs
    rw [allowance_ledger hs, allowance_ledger (g := (execCall g c about now).1) hs']
    exact Ledger.execute_reservations _ _ _ _ _

/-- A reservation that lets a NEED through enlarges its allowance. -/
theorem exec_admitting {c : Reservation} {m : Option Envelope} (hf : Fits g (.call c m))
    (now : Time) (id : Id) :
    held (admitting id) (reply (execCall g (.reserveNeed c) [] now).2 m) + allowance id g ≤
      allowance id (execCall g (.reserveNeed c) [] now).1 := by
  have hgrow := exec_allowance g (.reserveNeed c) [] now id
  cases m with
  | none => simpa [reply] using hgrow
  | some m =>
    simp only [reply, Option.toList_some, List.map_cons, List.map_nil, held_cons, held_nil]
    by_cases hk : (execCall g (.reserveNeed c) [] now).2.failed = false ∧ m.id = id
    · obtain ⟨hk, rfl⟩ := hk
      have hs := (Ledger.execute_isSome g.ledger (.reserveNeed c) [] now).trans hf.1
      have hid := (hf.2 m rfl).1
      have hcap := allowance_ledger hf.1 m.id
      have hcap' : allowance m.id (execCall g (.reserveNeed c) [] now).1 = _ :=
        allowance_ledger hs m.id
      have hmore := Ledger.execute_reserve hk
      rw [admitting, if_pos ⟨hk, rfl⟩, hcap, hcap', execCall, hid, ← hmore]
      omega
    · rw [admitting, if_neg hk]
      omega

variable {s : Guard × List Task}

/-- TOKENS: what a segment lets through and leaves to return is covered. -/
theorem Segment.admission (ht : ∀ x ∈ t, Fits g x) (h : Segment o t g s) (id : Id) :
    Covered (admitting id) (admissions id) (allowance id) g t s.1 s.2 := by
  cases h with
  | @finished m outcome hm =>
    have hz : lets id (m, outcome) = false := by
      cases outcome with
      | some f => exact lets_fault id m f
      | none => simpa [lets] using fun h => absurd (hm h) (by simp)
    simp only [Covered, admissions_finish, hz]
    simp [Guard.finish, allowance]
  | @waits ts _ hts =>
    have hz : held (admitting id) ts = 0 := by
      refine List.sum_eq_zero fun n hn => ?_
      obtain ⟨x, hx, rfl⟩ := List.mem_map.mp hn
      exact (hts x hx).2 id
    simp only [Covered, hz]
    omega
  | @remembered m hm hl hfresh _ =>
    simp only [Covered, admissions_finish]
    simp only [Guard.finish, allowance, hl, List.count_append, List.count_singleton, held_nil,
      lets, hm, true_and, and_true, decide_eq_true_eq, beq_iff_eq]
    simp only [admissions]
    omega
  | @passed a m ht' ha =>
    have hm := ht _ ht'
    simp only [Fits] at hm
    simp only [Covered, admissions_finish, ht', holds?_some, admitting, ha, lets, hm, true_and,
      and_true, decide_eq_true_eq]
    simp only [Guard.finish, held_nil, allowance]
    omega
  | @executed c m a now ht' ha =>
    have hf := ht _ ht'
    have hspent : admissions id (execCall g (.reserveNeed c) [] now).1 = admissions id g := rfl
    have hgrow := exec_allowance g (.reserveNeed c) [] now id
    simp only [Covered, hspent]
    rcases ha with rfl | ha
    · have := exec_admitting hf now id
      omega
    · have hz : held (admitting id) (reply a m) = 0 := by
        cases m <;> simp [reply, admitting, ha]
      omega
  | @peer c about now =>
    have hspent : admissions id (execCall g c about now).1 = admissions id g := rfl
    have hgrow := exec_allowance g c about now id
    simp only [Covered, hspent, held_nil]
    omega

/-- A segment leaves seen ids and ledger alone, remembers an id, or executes a call. -/
theorem Segment.memory (h : Segment o t g s) :
    (s.1.seen = g.seen ∧ s.1.ledger = g.ledger) ∨
    (∃ id, s.1.ledger = g.ledger ∧ id ∉ g.seen ∧ g.seen.length < o.maxSeenNeedIds ∧
      s.1.seen = g.seen ++ [id]) ∨
    ∃ c about now, s.1 = (execCall g c about now).1 := by
  cases h with
  | finished _ => exact .inl ⟨rfl, rfl⟩
  | waits _ _ => exact .inl ⟨rfl, rfl⟩
  | remembered _ _ hfresh hcap => exact .inr (.inl ⟨_, rfl, hfresh, hcap, rfl⟩)
  | passed _ _ => exact .inl ⟨rfl, rfl⟩
  | executed _ _ => exact .inr (.inr ⟨_, _, _, rfl⟩)
  | peer => exact .inr (.inr ⟨_, _, _, rfl⟩)

theorem Segment.onward (h : Segment o t g s) : Onward g s.1 := by
  rcases h.memory with ⟨hs, hl⟩ | ⟨_, hl, -, -, hs⟩ | ⟨c, about, now, he⟩
  · exact ⟨by rw [hl], by rw [hs]⟩
  · exact ⟨by rw [hl], by rw [hs]; exact List.prefix_append _ _⟩
  · rw [he]
    exact ⟨Ledger.execute_isSome _ _ _ _, List.prefix_rfl⟩

theorem Segment.sane (hg : Sane o g) (h : Segment o t g s) :
    Sane o s.1 := by
  rcases h.memory with ⟨hs, hl⟩ | ⟨id, hl, hfresh, hcap, hs⟩ | ⟨c, about, now, he⟩
  · exact ⟨by rw [hl]; exact hg.lineage, by rw [hs]; exact hg.seen, by rw [hs]; exact hg.room⟩
  · refine ⟨by rw [hl]; exact hg.lineage, ?_, by rw [hs, List.length_append]; exact hcap⟩
    rw [hs, List.nodup_append]
    refine ⟨hg.seen, List.pairwise_singleton _ _, fun a ha b hb => ?_⟩
    rw [List.mem_singleton.mp hb]
    exact fun heq => hfresh (heq ▸ ha)
  · rw [he]
    exact ⟨Ledger.execute_abstract hg.lineage _ _ _, hg.seen, hg.room⟩

theorem Onward.fits (h : Onward g g') : ∀ {x : Task}, Fits g x → Fits g' x
  | .read _, hf => ⟨h.ledger ▸ hf.1, hf.2⟩
  | .looked _ _, hf => ⟨h.ledger ▸ hf.1, hf.2⟩
  | .call _ _, hf => ⟨h.ledger ▸ hf.1, hf.2⟩
  | .reserved _ _, hf => hf

theorem Segment.fits (ht : ∀ x ∈ t, Fits g x) (h : Segment o t g s) :
    ∀ x ∈ s.2, Fits s.1 x := by
  cases h with
  | waits _ hts => exact fun x hx => (hts x hx).1
  | @executed c m a now ht' _ =>
    have hf := ht _ ht'
    cases m with
    | none => exact fun x hx => absurd hx List.not_mem_nil
    | some m =>
      intro x hx
      obtain rfl := List.mem_singleton.mp hx
      exact (hf.2 m rfl).2
  | _ => exact fun x hx => absurd hx List.not_mem_nil

/-- Every run of a guard keeps it sane and its tasks fitting. -/
theorem sane_sound (o : GuardOptions) :
    Sound (machine o) free (Sane o) Fits Onward where
  react _ _ _ _ _ hg ht _ hM := by
    have h := segment_of_machine ht hM
    exact ⟨h.sane hg, h.onward, h.fits ht⟩
  stable _ _ _ _ hR hx := hR.fits hx

theorem holds_init (o : GuardOptions) {ledger : Option Book} (hl : ∀ b ∈ ledger, ∀ id, b id = []) :
    Holds (Sane o) Fits (init ledger) := by
  refine ⟨⟨fun id => ?_, List.nodup_nil, Nat.zero_le _⟩, fun _ h => absurd h List.not_mem_nil⟩
  have : versions ledger id = [] := by
    cases ledger with
    | none => rfl
    | some b => exact hl b rfl id
  rw [init, this]
  exact .nil

/-- ADMISSION: in every run a guard lets a NEED through no more often than it may. -/
theorem admissions_le (ledger : Option Book) (hl : ∀ b ∈ ledger, ∀ id, b id = [])
    {s : Sys Guard Task} (h : Runs (machine o) free (init ledger) s) (id : Id) :
    Sane o s.shared ∧ admissions id s.shared ≤ allowance id s.shared := by
  have h0 := holds_init o hl
  have hb := Runs.within (sane_sound o) (admitting id) (admissions id) (allowance id)
    (fun g t x g' ts _ ht _ hM => (segment_of_machine ht hM).admission ht id)
    h h0 (by simp [init, admissions])
  exact ⟨(h.sound (sane_sound o) h0).1, by omega⟩

end Truyn.Admission
