import Truyn.Runtime.Propagation

/-! runtime:wake-up | a target that has not acknowledged is still waited for

    Between a failed announcement and the next one there is a timer, a queued microtask, the dirty flag
    of a publish, or a renewal or start that is going to publish. `Careful` is that no event drops the
    one that a pending target has; then nothing is pending when nothing is left to do. -/

namespace Truyn.Propagation

def Status.over : Status → Bool
  | .concluded => true
  | _ => false

/-- Whom an announcement has to reach yet, or to hand to its owner. -/
def Status.unreached (candidates : List NodeId) : Status → List NodeId
  | .inFlight => candidates
  | .returned failed => failed
  | .threw => candidates
  | .concluded => []

def Owner.retries : Owner → Bool
  | .other => false
  | _ => true

def Announcement.Covers (a : Announcement) (peer : NodeId) : Prop :=
  a.owner.retries = true ∧ peer ∈ a.status.unreached a.candidates

/-- Whom its owner would retry. -/
def Announcement.recovers (a : Announcement) : List NodeId :=
  match a.owner with
  | .publish _ peers => peers
  | .retry recoveryPeers _ => recoveryPeers
  | .other => []

namespace Node

variable (s : Node)

/-! ### Quiescence -/

/-- No publish, announcement, renewal or start under way, no microtask queued, no timer, and every
    change of the closest peers reported. -/
structure Quiescent : Prop where
  publish : s.publishInFlight = none
  announcements : ∀ a ∈ s.announcements, a.status.over = true
  renewal : s.renewalInFlight = none
  starts : ∀ stage ∈ s.starts, stage = .ended
  microtasks : s.microtasks = []
  timer : s.retryTimer = none
  reported : s.reported = true

/-- The record changes only through `start` and renewals that announce, and the node stays open. -/
def InScope : Event → Prop
  | .renew _ announce => announce = true
  | .refresh _ | .close | .closed => False
  | _ => True

/-! ### What a pending target waits for -/

/-- The target has not acknowledged the record of the node. -/
def Pends (peer : NodeId) : Prop :=
  (∃ id, s.propagation.recordId = some id ∧ s.isLocal id = true) ∧ peer ∈ s.propagation.pendingNodeIds

/-- Something is going to publish to all pending targets. -/
def Due : Prop :=
  .persisting ∈ s.starts ∨
  (∃ renewal, s.renewalInFlight = some renewal ∧ renewal.stage = .persisting ∧
    s.isLocal renewal.record.recordId = true) ∨
  (∃ work, s.publishInFlight = some work ∧ s.publishDirty = true ∧ work.stage ≠ .left ∧
    s.isLocal work.recordId = true) ∨
  ∃ m ∈ s.microtasks, s.isLocal m.1.recordId = true

def Announces (peer : NodeId) : Prop :=
  ∃ a ∈ s.announcements, s.isLocal a.record.recordId = true ∧ a.Covers peer

def Helped (peer : NodeId) : Prop := s.Due ∨ s.Announces peer

def TimerCovers (peer : NodeId) : Prop :=
  ∃ retry, s.retryTimer = some retry ∧ s.isLocal retry.record.recordId = true ∧ peer ∈ retry.peers

/-- The announcement has ended with these failures. -/
def Fails (a : Announcement) (failed : List NodeId) : Prop :=
  a.status = .returned failed ∨
    a.status = .threw ∧ failed = a.candidates ∧ s.isLocal a.record.recordId = true

/-- Its owner then clears the retry timer, or sets another one. -/
def Replaces (a : Announcement) (failed : List NodeId) : Prop :=
  match a.owner with
  | .publish _ _ =>
    failed ≠ [] ∨ s.propagation.recordId ≠ some a.record.recordId ∨ s.propagation.ready = true
  | .retry _ _ => failed ≠ []
  | .other => False

/-- Nothing that a pending target waits for is dropped by the event, saves succeed, and a record that
    is published verifies. -/
def Careful : Event → Prop
  | .startPersisted call ok valid => s.starts[call]? = some .persisting → ok = true ∧ valid = true
  | .renewPersisted ok valid => ∀ record announce,
    s.renewalInFlight = some ⟨record, announce, .persisting⟩ →
      ok = true ∧ (s.isLocal record.recordId = true → valid = true)
  | .loop valid => ∀ recordId, s.publishInFlight = some ⟨recordId, .returned⟩ →
    s.publishDirty = true → s.isLocal recordId = true → valid = true
  -- A queued microtask serves the new report as well.
  | .report => s.propagationQueued = true → s.Due
  -- A microtask publishes; or a worker with the same record does, whose loop is not left; or all that
  -- is pending has something else to wait for.
  | .microtask valid => ∀ record changed rest, s.microtasks = (record, changed) :: rest →
    let t := { s with microtasks := rest, propagationQueued := false }
    if t.asks record changed = true ∧ s.publishInFlight.isNone = true then valid = true
    else (t.asks record changed = true ∧ ∃ work, s.publishInFlight = some work ∧ work.stage ≠ .left ∧
        work.recordId = record.recordId) ∨
      ∀ peer, s.Pends peer → t.Helped peer ∨ t.TimerCovers peer
  -- Targets of the record are replaced only by peers that have acknowledged.
  | .announced call results => ∀ a, s.announcements[call]? = some a →
    s.isLocal a.record.recordId = true → a.replacePropagationTargets = true →
      a.trackPropagation = true → (outcome a.candidates results).2 = []
  -- Whom a replaced timer would have retried is retried by the new one, or waits for something else.
  | .conclude call => ∀ a failed, s.announcements[call]? = some a → s.Fails a failed →
    s.Replaces a failed → ∀ peer, s.Pends peer → s.TimerCovers peer →
      (s.isLocal a.record.recordId = true ∧ peer ∈ failed) ∨
      (s.setStatus call a .concluded).Helped peer
  | _ => True

/-! ### The invariant -/

/-- What the parts of the state have to do with each other. -/
structure Kept : Prop where
  started : s.started = true → s.localPeerRecord.isSome = true
  live : s.localPeerRecord.isSome = true → s.live = true
  acked : s.acked.1 = s.propagation.recordId
  pending : s.propagation.pendingNodeIds = s.propagation.targetNodeIds.filter (· ∉ s.acked.2)
  ready : s.propagation.ready = decide (s.propagation.pendingNodeIds.length = 0)
  announces : ∀ renewal, s.renewalInFlight = some renewal → renewal.announce = true
  owned : ∀ a ∈ s.announcements, ∀ peer, a.Covers peer →
    a.trackPropagation = true ∧ a.replacePropagationTargets = false ∧ peer ∈ a.recovers
  timer : ∀ retry, s.retryTimer = some retry → retry.trackPropagation = true ∧
    ∀ peer ∈ retry.peers, peer ∈ retry.recoveryPeers

/-- The placement is of the record that the node has, and what is pending waits for something. -/
structure Waiting : Prop extends Kept s where
  recorded : ∀ record, s.localPeerRecord = some record →
    s.propagation.recordId = some record.recordId ∨ .persisting ∈ s.starts
  attended : ∀ peer, s.Pends peer → s.Helped peer ∨ s.TimerCovers peer

variable {s} {record : Record} {t : Node} {peer : NodeId}

theorem waiting_new : Waiting new where
  started := by simp [new]
  live := by simp [new]
  acked := rfl
  pending := rfl
  ready := rfl
  recorded := by simp [new]
  announces := by simp [new]
  owned := by simp [new]
  timer := by simp [new]
  attended := by
    rintro peer ⟨-, hpeer⟩
    cases hpeer

/-- Where nothing is left to do, the record has been placed. -/
theorem Waiting.quiet (h : Waiting s) (hq : s.Quiescent) (hstarted : s.started = true) :
    s.peerRecordPropagationReady = true := by
  obtain ⟨record, hlocal⟩ := Option.isSome_iff_exists.mp (h.started hstarted)
  have hstarts : .persisting ∉ s.starts := fun hmem => by cases hq.starts _ hmem
  have hid := (h.recorded record hlocal).resolve_right hstarts
  have hnone : ∀ peer, ¬s.Pends peer := by
    intro peer hpends
    rcases h.attended peer hpends with (hdue | ⟨a, ha, -, hcovers⟩) | ⟨retry, hretry, -⟩
    · rcases hdue with hstart | ⟨renewal, hrenewal, -⟩ | ⟨work, hwork, -⟩ | ⟨m, hm, -⟩
      · exact hstarts hstart
      · rw [hq.renewal] at hrenewal
        cases hrenewal
      · rw [hq.publish] at hwork
        cases hwork
      · rw [hq.microtasks] at hm
        cases hm
    · have hover := hq.announcements a ha
      have hpeer := hcovers.2
      cases hstatus : a.status with
      | concluded =>
        rw [hstatus] at hpeer
        cases hpeer
      | _ =>
        rw [hstatus] at hover
        cases hover
    · rw [hq.timer] at hretry
      cases hretry
  have hlocal' : s.isLocal record.recordId = true := by simp [isLocal, hlocal]
  have hpending : s.propagation.pendingNodeIds = [] :=
    List.eq_nil_iff_forall_not_mem.mpr fun peer hpeer => hnone peer ⟨⟨_, hid, hlocal'⟩, hpeer⟩
  simp [peerRecordPropagationReady, hstarted, hlocal, hid, h.ready, hpending]

variable {ok valid : Bool} {id : JsString}

/-! ### Publishing -/

theorem isLocal_iff :
    s.isLocal id = true ↔ ∃ record, s.localPeerRecord = some record ∧ record.recordId = id := by
  simp [isLocal, Option.any_eq_true]

theorem Kept.live_of_local (h : Kept s) (hlocal : s.isLocal id = true) :
    s.live = true := by
  obtain ⟨record, hrecord, -⟩ := isLocal_iff.mp hlocal
  exact h.live (by simp [hrecord])

theorem Kept.placed (h : Kept s) (record : Record) (targets acked : List NodeId) :
    Kept (s.placed record targets acked) :=
  { h with acked := rfl, pending := rfl, ready := rfl }

/-- An announcement that covers nobody yet, or whom its owner retries, is added. -/
theorem Kept.push (h : Kept s) {a : Announcement} (ha : ∀ peer, a.Covers peer →
    a.trackPropagation = true ∧ a.replacePropagationTargets = false ∧ peer ∈ a.recovers) :
    Kept { s with announcements := s.announcements ++ [a] } := by
  refine { h with owned := fun b hb => ?_ }
  rcases List.mem_append.mp hb with hb | hb
  · exact h.owned b hb
  · obtain rfl := List.mem_singleton.mp hb
    exact ha

theorem mem_targets {peers : List NodeId} {peer : NodeId} :
    peer ∈ sortStrings (setOf peers) ↔ peer ∈ peers := by
  rw [(sortStrings_perm _).mem_iff, mem_setOf]

/-- A publish of the record of the node goes to everything that is pending. -/
theorem Kept.publish (h : Kept s) (publisher : Publisher) (hlocal : s.isLocal record.recordId = true) :
    Waiting (s.publishCurrentPeerRecord record publisher true) := by
  have hlive := h.live_of_local hlocal
  simp only [publishCurrentPeerRecord, hlive, hlocal, Bool.not_true, Bool.or_self, Bool.false_eq_true,
    if_false, if_true]
  have hplaced := h.placed record s.closest (s.ackedNodeIdsFor record)
  refine ⟨hplaced.push fun peer hpeer => ⟨rfl, rfl, List.mem_of_mem_filter hpeer.2⟩,
    fun other hother => .inl ?_, fun peer hpends => .inl (.inr ⟨_, List.mem_append_right _
      (List.mem_singleton.mpr rfl), hlocal, rfl, ?_⟩)⟩
  · obtain ⟨r, hr, hid⟩ := isLocal_iff.mp hlocal
    cases hr.symm.trans hother
    exact congrArg some hid.symm
  · have hpeer := hpends.2
    exact List.mem_filter.mpr ⟨mem_targets.mp (List.mem_of_mem_filter hpeer), decide_eq_true hpeer⟩

/-! ### Events that publish or prepare to -/

theorem Waiting.start (h : Waiting s) (recordId : JsString) : Waiting (s.start recordId) where
  __ := h
  started := fun _ => rfl
  live := fun _ => rfl
  recorded := fun _ _ => .inr (List.mem_append_right _ (List.mem_singleton.mpr rfl))
  attended := fun _ _ => .inl (.inl (.inl (List.mem_append_right _ (List.mem_singleton.mpr rfl))))

theorem Waiting.startPersisted (h : Waiting s) {call : ℕ}
    (hc : s.Careful (.startPersisted call ok valid)) :
    Waiting (s.startPersisted call ok valid) := by
  simp only [Node.startPersisted]
  split
  · rename_i record hstage hlocal
    obtain ⟨rfl, rfl⟩ := hc hstage
    refine Kept.publish ?_ _ (isLocal_iff.mpr ⟨record, hlocal, rfl⟩)
    have hplaced := h.toKept.placed record s.closest (s.ackedNodeIdsFor record)
    exact { hplaced with }
  · exact h

theorem Waiting.renew (h : Waiting s) (recordId : JsString) :
    Waiting (s.renewPeerRecord recordId true) := by
  simp only [renewPeerRecord]
  split
  · exact h
  · rename_i hfree
    obtain ⟨hlive, -⟩ := Bool.or_eq_false_iff.mp (Bool.eq_false_iff.mpr hfree)
    rw [Bool.not_eq_false'] at hlive
    have hstarted : s.started = true := (Bool.and_eq_true_iff.mp hlive).1
    simp only [refreshPeerRecord, hstarted, Bool.not_true, Bool.false_eq_true, if_false]
    have hself : decide (recordId = recordId) = true := decide_eq_true rfl
    exact ⟨⟨fun _ => rfl, fun _ => hlive, rfl, rfl, rfl, by rintro _ ⟨⟩; rfl, h.owned,
      by rintro _ ⟨⟩⟩, by rintro _ ⟨⟩; exact .inl rfl,
      fun _ _ => .inl (.inl (.inr (.inl ⟨_, rfl, rfl, hself⟩)))⟩

theorem Waiting.renewPersisted (h : Waiting s) (hc : s.Careful (.renewPersisted ok valid)) :
    Waiting (s.renewPersisted ok valid) := by
  simp only [Node.renewPersisted]
  split
  · rename_i record announce hrenewal
    obtain rfl : announce = true := h.announces _ hrenewal
    obtain ⟨rfl, hvalid⟩ := hc record true hrenewal
    simp only [Bool.not_true, Bool.false_eq_true, if_false, if_true]
    cases hlocal : s.isLocal record.recordId with
    | true =>
      rw [hvalid hlocal]
      refine Kept.publish ?_ _ hlocal
      exact { h with announces := by rintro _ ⟨⟩; rfl }
    | false =>
      have hnot : ({ s with renewalInFlight := some ⟨record, true, .publishing⟩ } : Node).isLocal
          record.recordId = false := hlocal
      simp only [publishCurrentPeerRecord, hnot, Bool.not_false, Bool.or_true, if_true, published]
      refine ⟨{ h with announces := by rintro _ ⟨⟩; rfl }, h.recorded, fun peer hpends => ?_⟩
      refine (h.attended peer hpends).imp_left fun hhelped => hhelped.imp_left fun hdue => ?_
      rcases hdue with hstart | ⟨renewal, hsome, -, hother⟩ | hwork | hm
      · exact .inl hstart
      · cases hrenewal.symm.trans hsome
        rw [hlocal] at hother
        cases hother
      · exact .inr (.inr (.inl hwork))
      · exact .inr (.inr (.inr hm))
  · exact h

/-! ### Reports and microtasks -/

theorem Waiting.report (h : Waiting s) (hc : s.Careful .report) : Waiting (s.step .report) := by
  have hscheduled : Waiting s.schedulePeerRecordPropagation := by
    simp only [schedulePeerRecordPropagation]
    split
    · rename_i record hrecord
      have hlocal : s.isLocal record.recordId = true := isLocal_iff.mpr ⟨record, hrecord, rfl⟩
      have hlive := h.live_of_local hlocal
      have hreset : Kept (s.resetPeerRecordPropagation record s.closest) := h.toKept.placed _ _ _
      have hid : ∀ other, s.localPeerRecord = some other →
          some record.recordId = some other.recordId := fun other hother => by
        cases hrecord.symm.trans hother
        rfl
      simp only [hlive, Bool.not_true, Bool.false_eq_true, if_false, stagePeerRecordPropagation,
        hlocal, Bool.or_self]
      split
      · split
        · exact h
        · exact ⟨{ h with },
            h.recorded, fun peer _ => .inl (.inl (.inr (.inr (.inr
              ⟨_, List.mem_append_right _ (List.mem_singleton.mpr rfl), hlocal⟩))))⟩
      · split
        · rename_i hqueued
          exact ⟨hreset, fun other hother => .inl (hid other hother),
            fun peer _ => .inl (.inl (hc hqueued))⟩
        · exact ⟨{ hreset with }, fun other hother => .inl (hid other hother),
            fun peer _ => .inl (.inl (.inr (.inr (.inr
              ⟨_, List.mem_append_right _ (List.mem_singleton.mpr rfl), hlocal⟩))))⟩
    · exact h
  exact ⟨{ hscheduled with },
    hscheduled.recorded, hscheduled.attended⟩

/-- A round of the worker publishes, if its record is still that of the node. -/
theorem Kept.round (h : Kept s) {recordId : JsString} (hlocal : s.isLocal recordId = true) :
    Waiting (s.publishRound recordId true) := by
  obtain ⟨record, hrecord, rfl⟩ := isLocal_iff.mp hlocal
  have hlive : ({ s with publishDirty := false, publishInFlight := some ⟨record.recordId,
      .publishing⟩ } : Node).live = true := h.live_of_local hlocal
  simp only [publishRound]
  split
  · rename_i other hother
    cases hrecord.symm.trans hother
    rw [if_neg (by simp [hlive])]
    refine Kept.publish ?_ _ hlocal
    exact { h with }
  · rename_i hnone
    rw [hrecord] at hnone
    cases hnone

theorem Waiting.microtask (h : Waiting s) (hc : s.Careful (.microtask valid)) :
    Waiting (s.microtask valid) := by
  simp only [Node.microtask]
  split
  · exact h
  · rename_i record changed rest hqueue
    have hkept : Kept { s with microtasks := rest, propagationQueued := false } :=
      { h with }
    have hlocal : ∀ {t : Node}, t.asks record changed = true → t.isLocal record.recordId = true :=
      fun hasks => by
        simp only [asks, Bool.and_eq_true] at hasks
        exact hasks.1.2
    have hcareful := hc record changed rest hqueue
    simp only at hcareful
    by_cases hfree : ({ s with microtasks := rest, propagationQueued := false } : Node).asks record
        changed = true ∧ s.publishInFlight.isNone = true
    · obtain ⟨hasks, hnone⟩ := hfree
      rw [if_pos ⟨hasks, hnone⟩] at hcareful
      rw [if_pos hasks, runPeerRecordPublish, if_neg (by simpa using hnone), hcareful]
      exact hkept.round (hlocal hasks)
    · rw [if_neg hfree] at hcareful
      split
      · rename_i hasks
        have hbusy : s.publishInFlight.isSome = true := by
          rw [← Option.not_isNone, Bool.not_eq_true']
          exact Bool.eq_false_iff.mpr fun hnone => hfree ⟨hasks, hnone⟩
        rw [runPeerRecordPublish, if_pos hbusy]
        refine ⟨{ h with },
          h.recorded, fun peer hpends => ?_⟩
        rcases hcareful with ⟨-, work, hwork, hleft, hid⟩ | hhelped
        · exact .inl (.inl (.inr (.inr (.inl ⟨work, hwork, rfl, hleft, hid ▸ hlocal hasks⟩))))
        · refine (hhelped peer hpends).imp_left (.imp_left ?_)
          rintro (hstart | hrenewal | ⟨work, hwork, -, hleft⟩ | hm)
          · exact .inl hstart
          · exact .inr (.inl hrenewal)
          · exact .inr (.inr (.inl ⟨work, hwork, rfl, hleft⟩))
          · exact .inr (.inr (.inr hm))
      · rename_i hasks
        exact ⟨hkept, h.recorded, hcareful.resolve_left fun hno => hasks hno.1⟩

/-! ### The worker, the timer and other calls -/

/-- The loop is left for good: nothing was waiting for it. -/
theorem Waiting.leave (h : Waiting s) {recordId : JsString} {work : Work}
    (hwork : s.publishInFlight = some work)
    (hidle : s.publishDirty = true → s.isLocal work.recordId = false) :
    Waiting { s with publishInFlight := some ⟨recordId, .left⟩ } := by
  refine ⟨{ h with },
    h.recorded, fun peer hpends => (h.attended peer hpends).imp_left (.imp_left ?_)⟩
  rintro (hstart | hrenewal | ⟨other, hother, hdirty, -, hlocal⟩ | hm)
  · exact .inl hstart
  · exact .inr (.inl hrenewal)
  · cases hwork.symm.trans hother
    rw [hidle hdirty] at hlocal
    cases hlocal
  · exact .inr (.inr (.inr hm))

theorem Waiting.loop (h : Waiting s) (hc : s.Careful (.loop valid)) :
    Waiting (s.loop valid) := by
  simp only [Node.loop]
  split
  · rename_i recordId hwork
    split
    · rename_i hdirty
      cases hlocal : s.isLocal recordId with
      | true =>
        rw [hc recordId hwork hdirty hlocal]
        exact h.toKept.round hlocal
      | false =>
        have hleft : Waiting { s with
            publishDirty := false, publishInFlight := some ⟨recordId, .left⟩ } := by
          have h' : Waiting { s with publishInFlight := some ⟨recordId, .left⟩ } :=
            h.leave hwork fun _ => hlocal
          refine ⟨{ h with },
            h.recorded, fun peer hpends => (h'.attended peer hpends).imp_left (.imp_left ?_)⟩
          rintro (hstart | hrenewal | ⟨other, ⟨⟩, -, hother, -⟩ | hm)
          · exact .inl hstart
          · exact .inr (.inl hrenewal)
          · exact absurd rfl hother
          · exact .inr (.inr (.inr hm))
        simp only [publishRound]
        split
        · rename_i record hrecord
          have hne : record.recordId ≠ recordId := by
            rintro rfl
            rw [isLocal_iff.mpr ⟨record, hrecord, rfl⟩] at hlocal
            cases hlocal
          rw [if_pos (by simp [hne])]
          exact hleft
        · exact hleft
    · rename_i hdirty
      exact h.leave hwork fun hd => absurd hd hdirty
  · exact h

theorem Waiting.workOver (h : Waiting s) : Waiting s.workOver := by
  simp only [Node.workOver]
  split
  · rename_i recordId hwork
    refine ⟨{ h with },
      h.recorded, fun peer hpends => (h.attended peer hpends).imp_left (.imp_left ?_)⟩
    rintro (hstart | hrenewal | ⟨other, hother, -, hleft, -⟩ | hm)
    · exact .inl hstart
    · exact .inr (.inl hrenewal)
    · cases hwork.symm.trans hother
      exact absurd rfl hleft
    · exact .inr (.inr (.inr hm))
  · exact h

theorem Waiting.renewed (h : Waiting s) : Waiting s.renewed := by
  simp only [Node.renewed]
  split
  · rename_i record announce hrenewal
    refine ⟨{ h with announces := by rintro _ ⟨⟩ },
      h.recorded, fun peer hpends => (h.attended peer hpends).imp_left (.imp_left ?_)⟩
    rintro (hstart | ⟨other, hother, hstage, -⟩ | hwork)
    · exact .inl hstart
    · cases hrenewal.symm.trans hother
      cases hstage
    · exact .inr (.inr hwork)
  · exact h

/-- Who was announced to still is when another announcement is added. -/
theorem Helped.push {a : Announcement} (h : s.Helped peer) :
    ({ s with announcements := s.announcements ++ [a] } : Node).Helped peer :=
  h.imp_right fun ⟨b, hb, hcovers⟩ => ⟨b, List.mem_append_left _ hb, hcovers⟩

theorem Waiting.announce (h : Waiting s) (record : Record) (peers : List NodeId)
    (replaceTargets track : Bool) : Waiting (s.announce record peers replaceTargets track) := by
  simp only [Node.announce]
  split
  · exact h
  · refine ⟨h.toKept.push fun peer hcovers => ?_, h.recorded, fun peer hpends =>
      (h.attended peer hpends).imp_left Helped.push⟩
    cases hcovers.1

theorem Waiting.timerFires (h : Waiting s) (valid : Bool) : Waiting (s.timer valid) := by
  simp only [Node.timer]
  split
  · exact h
  · rename_i retry hretry
    obtain ⟨htrack, hpeers⟩ := h.timer retry hretry
    have hkept : Kept { s with retryTimer := none } :=
      { h with timer := by rintro _ ⟨⟩ }
    split
    · rename_i hgone
      have hnot : s.isLocal retry.record.recordId = false := by
        rw [← Bool.not_eq_true]
        intro hlocal
        have hlive := h.live_of_local hlocal
        have hgone' : (!s.live || !s.isLocal retry.record.recordId) = true := hgone
        simp [hlive, hlocal] at hgone'
      refine ⟨hkept, h.recorded, fun peer hpends => .inl ?_⟩
      rcases h.attended peer hpends with hhelped | ⟨other, hother, hlocal, -⟩
      · exact hhelped
      · cases hretry.symm.trans hother
        rw [hnot] at hlocal
        cases hlocal
    · refine ⟨hkept.push fun peer hcovers => ⟨htrack, rfl, ?_⟩, h.recorded,
        fun peer hpends => .inl ?_⟩
      · cases valid <;> exact hpeers peer hcovers.2
      · rcases h.attended peer hpends with hhelped | ⟨other, hother, hlocal, hpeer⟩
        · exact Helped.push hhelped
        · cases hretry.symm.trans hother
          refine .inr ⟨_, List.mem_append_right _ (List.mem_singleton.mpr rfl), hlocal, rfl, ?_⟩
          cases valid <;> exact hpeer

/-! ### An announcement ends -/

section
variable {call : ℕ} {a : Announcement} {failed : List NodeId}

theorem outcome_spec (peers : List NodeId) (results : List Bool) :
    (∀ peer ∈ peers, peer ∈ (outcome peers results).1 ∨ peer ∈ (outcome peers results).2) ∧
      ∀ peer ∈ (outcome peers results).2, peer ∈ peers := by
  induction peers generalizing results with
  | nil => exact ⟨fun _ h => (by cases h), fun _ h => (by cases h)⟩
  | cons p peers ih =>
    cases results with
    | nil => exact ⟨fun _ h => .inr h, fun _ h => h⟩
    | cons result results =>
      obtain ⟨hall, hfailed⟩ := ih results
      cases result with
      | true =>
        refine ⟨fun peer hpeer => ?_, fun peer hpeer => List.mem_cons_of_mem _ (hfailed peer hpeer)⟩
        rcases List.mem_cons.mp hpeer with rfl | hpeer
        · exact .inl List.mem_cons_self
        · exact (hall peer hpeer).imp_left (List.mem_cons_of_mem _)
      | false =>
        constructor
        · intro peer hpeer
          rcases List.mem_cons.mp hpeer with rfl | hpeer
          · exact .inr List.mem_cons_self
          · exact (hall peer hpeer).imp_right (List.mem_cons_of_mem _)
        · intro peer hpeer
          rcases List.mem_cons.mp hpeer with rfl | hpeer
          · exact List.mem_cons_self
          · exact List.mem_cons_of_mem _ (hfailed peer hpeer)

/-- With a status that leaves no more to reach, the owner retries whom it did before. -/
theorem Kept.setStatus (h : Kept s) (ha : s.announcements[call]? = some a) {status : Status}
    (hless : ∀ peer ∈ status.unreached a.candidates, peer ∈ a.status.unreached a.candidates) :
    Kept (s.setStatus call a status) := by
  refine { h with owned := fun b hb peer hcovers => ?_ }
  rcases Tables.mem_write hb with rfl | hb
  · exact h.owned a (List.mem_of_getElem? ha) peer ⟨hcovers.1, hless peer hcovers.2⟩
  · exact h.owned b hb peer hcovers

/-- Who is announced to still is after another status, or was one of this announcement's. -/
theorem Announces.setStatus (h : s.Announces peer) (ha : s.announcements[call]? = some a)
    (status : Status) : (s.setStatus call a status).Announces peer ∨
      s.isLocal a.record.recordId = true ∧ a.Covers peer ∧ peer ∉ status.unreached a.candidates := by
  obtain ⟨b, hb, hlocal, hcovers⟩ := h
  obtain ⟨j, hj⟩ := List.mem_iff_getElem?.mp hb
  rcases eq_or_ne call j with rfl | hne
  · cases ha.symm.trans hj
    by_cases hpeer : peer ∈ status.unreached a.candidates
    · exact .inl ⟨{ a with status := status },
        List.mem_of_getElem? (Tables.get_write_self ha), hlocal, hcovers.1, hpeer⟩
    · exact .inr ⟨hlocal, hcovers, hpeer⟩
  · exact .inl ⟨b, List.mem_of_getElem? (Tables.get_write_other hne hj), hlocal, hcovers⟩

theorem Waiting.announced (h : Waiting s) {results : List Bool}
    (hc : s.Careful (.announced call results)) : Waiting (s.announced call results) := by
  simp only [Node.announced]
  split
  · exact h
  · rename_i a ha
    split
    · rename_i hstatus
      have hreplaced := hc a ha
      obtain ⟨hall, hfailed⟩ := outcome_spec a.candidates results
      generalize (outcome a.candidates results).1 = fulfilled at *
      generalize (outcome a.candidates results).2 = failed at *
      have hless : ∀ peer ∈ (Status.returned failed).unreached a.candidates,
          peer ∈ a.status.unreached a.candidates := by
        rw [hstatus]
        exact hfailed
      have hset := h.toKept.setStatus ha hless
      have hkept : Kept ({ s with acks := s.acks ++ fulfilled.map fun peer =>
          (a.record.recordId, peer) }.setStatus call a (.returned failed)) :=
        { hset with }
      have hhelped : ∀ peer, s.Pends peer → (s.isLocal a.record.recordId = true → a.Covers peer →
          peer ∈ failed) → (s.setStatus call a (.returned failed)).Helped peer ∨ s.TimerCovers peer := by
        intro peer hpends hlost
        refine (h.attended peer hpends).imp_left ?_
        rintro (hdue | hannounced)
        · exact .inl hdue
        · rcases hannounced.setStatus ha (.returned failed) with hstill | ⟨hlocal, hcovers, hnot⟩
          · exact .inr hstill
          · exact absurd (hlost hlocal hcovers) hnot
      split
      · simp only [recordPeerRecordPropagation]
        split
        · rename_i hgone
          have hgone' : (!s.isLocal a.record.recordId) = true := hgone
          have hnot : s.isLocal a.record.recordId = false := by simpa using hgone'
          refine ⟨hkept, h.recorded, fun peer hpends => hhelped peer hpends fun hlocal => ?_⟩
          rw [hnot] at hlocal
          cases hlocal
        · rename_i htrack hhere
          have hlocal : s.isLocal a.record.recordId = true := by
            have hhere' : ¬(!s.isLocal a.record.recordId) = true := hhere
            simpa using hhere'
          obtain ⟨record, hrecord, hid⟩ := isLocal_iff.mp hlocal
          refine ⟨hkept.placed _ _ _, fun other hother => .inl ?_, fun peer hpends => ?_⟩
          · cases hrecord.symm.trans hother
            exact congrArg some hid.symm
          · obtain ⟨htarget, hpending⟩ := List.mem_filter.mp hpends.2
            have hnot := of_decide_eq_true hpending
            rw [List.mem_append, not_or] at hnot
            rw [mem_targets] at htarget
            -- Targets that replace the others have all acknowledged.
            cases hreplace : a.replacePropagationTargets with
            | true =>
              rw [if_pos hreplace] at htarget
              have hnone := hreplaced hlocal hreplace htrack
              rcases hall peer htarget with hok | hno
              · exact absurd hok hnot.2
              · rw [hnone] at hno
                cases hno
            | false =>
              rw [hreplace, if_neg Bool.false_ne_true] at htarget
              by_cases hsame : s.propagation.recordId = some a.record.recordId
              · have hacked : s.ackedNodeIdsFor a.record = s.acked.2 := by
                  rw [ackedNodeIdsFor, if_pos (h.acked.trans hsame)]
                have hold : s.Pends peer := by
                  refine ⟨⟨_, hsame, hlocal⟩, ?_⟩
                  rw [h.pending]
                  refine List.mem_filter.mpr ⟨?_, decide_eq_true fun hmem => hnot.1 ?_⟩
                  · simpa [Node.setStatus, hsame] using htarget
                  · exact hacked.symm ▸ hmem
                refine hhelped peer hold fun _ hcovers => ?_
                have hcandidate := hcovers.2
                rw [hstatus] at hcandidate
                exact (hall peer hcandidate).resolve_left hnot.2
              · have hstart := (h.recorded record hrecord).resolve_left fun heq =>
                  hsame (heq.trans (congrArg some hid))
                exact .inl (.inl (.inl hstart))
      · rename_i htrack
        refine ⟨hkept, h.recorded, fun peer hpends => hhelped peer hpends fun _ hcovers => ?_⟩
        exact absurd (h.owned a (List.mem_of_getElem? ha) peer hcovers).1 htrack
    · exact h

theorem Due.published (h : s.Due) (publisher : Publisher) : (s.published publisher true).Due := by
  rcases h with hstart | ⟨renewal, hrenewal, hstage, hlocal⟩ | ⟨work, hwork, hdirty, hleft, hlocal⟩ | hm
  · cases publisher with
    | worker => exact .inl hstart
    | renewal => exact .inl hstart
    | start call =>
      simp only [Node.published]
      split
      · rename_i hpublishing
        obtain ⟨j, hj⟩ := List.mem_iff_getElem?.mp hstart
        refine .inl (List.mem_of_getElem? (Tables.get_write_other ?_ hj))
        rintro rfl
        rw [hpublishing] at hj
        cases hj
      · exact .inl hstart
  · cases publisher with
    | worker => exact .inr (.inl ⟨renewal, hrenewal, hstage, hlocal⟩)
    | renewal =>
      refine .inr (.inl ⟨renewal, ?_, hstage, hlocal⟩)
      simp [Node.published, hrenewal, hstage]
    | start call =>
      simp only [Node.published]
      split <;> exact .inr (.inl ⟨renewal, hrenewal, hstage, hlocal⟩)
  · cases publisher with
    | worker =>
      refine .inr (.inr (.inl ⟨if work.stage = .publishing then { work with stage := .returned } else work,
        ?_, hdirty, ?_, ?_⟩))
      · simp [Node.published, hwork]
      · split
        · simp
        · exact hleft
      · split <;> exact hlocal
    | renewal => exact .inr (.inr (.inl ⟨work, hwork, hdirty, hleft, hlocal⟩))
    | start call =>
      simp only [Node.published]
      split <;> exact .inr (.inr (.inl ⟨work, hwork, hdirty, hleft, hlocal⟩))
  · cases publisher with
    | worker => exact .inr (.inr (.inr hm))
    | renewal => exact .inr (.inr (.inr hm))
    | start call =>
      simp only [Node.published]
      split <;> exact .inr (.inr (.inr hm))

theorem Waiting.published (h : Waiting s) (publisher : Publisher) :
    Waiting (s.published publisher true) := by
  have hdue : s.Due → (s.published publisher true).Due := fun hdue => hdue.published publisher
  cases publisher with
  | worker =>
    exact ⟨{ h with },
      h.recorded, fun peer hpends => (h.attended peer hpends).imp_left (.imp_left hdue)⟩
  | renewal =>
    refine ⟨{ h with announces := fun renewal hrenewal => ?_ }, h.recorded, fun peer hpends => (h.attended peer hpends).imp_left (.imp_left hdue)⟩
    obtain ⟨old, hold, rfl⟩ := Option.map_eq_some_iff.mp hrenewal
    have hannounce := h.announces old hold
    split <;> exact hannounce
  | start call =>
    simp only [Node.published] at hdue ⊢
    split at hdue
    · rename_i hpublishing
      rw [if_pos hpublishing]
      refine ⟨{ h with },
        fun record hrecord => (h.recorded record hrecord).imp_right fun hstart => ?_,
        fun peer hpends => (h.attended peer hpends).imp_left (.imp_left hdue)⟩
      obtain ⟨j, hj⟩ := List.mem_iff_getElem?.mp hstart
      refine List.mem_of_getElem? (Tables.get_write_other ?_ hj)
      rintro rfl
      rw [hpublishing] at hj
      cases hj
    · rename_i hnot
      rw [if_neg hnot]
      exact h

/-- The timer after the end of an announcement: whom the announcement or the old timer would have
    retried is retried by the new one, or waits for something else. -/
theorem Waiting.rearm (h : Waiting s) (ha : s.announcements[call]? = some a) {timer : Option Retry}
    (hnew : ∀ retry, timer = some retry → retry.trackPropagation = true ∧
      ∀ peer ∈ retry.peers, peer ∈ retry.recoveryPeers)
    (hcovers : ∀ peer, s.Pends peer →
      (s.isLocal a.record.recordId = true ∧ a.Covers peer) ∨ s.TimerCovers peer →
      (s.setStatus call a .concluded).Helped peer ∨
        ({ s with retryTimer := timer } : Node).TimerCovers peer) :
    Waiting { s.setStatus call a .concluded with retryTimer := timer } := by
  have hset : Kept (s.setStatus call a .concluded) :=
    h.toKept.setStatus ha fun _ hpeer => by cases hpeer
  refine ⟨{ hset with timer := hnew }, h.recorded, fun peer hpends => ?_⟩
  rcases h.attended peer hpends with (hdue | hannounced) | htimer
  · exact .inl (.inl hdue)
  · rcases hannounced.setStatus ha .concluded with hstill | ⟨hlocal, hmine, -⟩
    · exact .inl (.inr hstill)
    · exact hcovers peer hpends (.inl ⟨hlocal, hmine⟩)
  · exact hcovers peer hpends (.inr htimer)

variable {recoveryPeers : List NodeId}

theorem nextRetry_ok {attempt : ℕ} {track : Bool} {retry : Retry}
    (h : s.nextRetry record recoveryPeers failed attempt track = some retry) :
    retry.trackPropagation = track ∧ ∀ peer ∈ retry.peers, peer ∈ retry.recoveryPeers := by
  simp only [nextRetry, Option.ite_none_left_eq_some, Option.some.injEq] at h
  obtain ⟨-, rfl⟩ := h
  exact ⟨rfl, fun _ hpeer => List.mem_of_mem_filter hpeer⟩

/-- A peer that failed and is pending is retried. -/
theorem nextRetry_covers (attempt : ℕ) (hlive : s.live = true)
    (hlocal : s.isLocal record.recordId = true) (hpends : s.Pends peer) (hfailed : peer ∈ failed)
    (hpeer : peer ∈ recoveryPeers) :
    ({ s with retryTimer := s.nextRetry record recoveryPeers failed attempt true } : Node).TimerCovers
      peer := by
  obtain ⟨⟨id, hid, hown⟩, hpending⟩ := hpends
  have hsame : id = record.recordId := by
    obtain ⟨r, hr, rfl⟩ := isLocal_iff.mp hown
    obtain ⟨r', hr', hid'⟩ := isLocal_iff.mp hlocal
    cases hr.symm.trans hr'
    exact hid'
  have hlate : s.isPending record peer = true :=
    decide_eq_true ⟨hid.trans (congrArg some hsame), hpending⟩
  have hmem : peer ∈ recoveryPeers.filter (· ∈
      if decide (retryDelays ≤ attempt) then failed.filter (s.isPending record) else failed) := by
    refine List.mem_filter.mpr ⟨hpeer, decide_eq_true ?_⟩
    split
    · exact List.mem_filter.mpr ⟨hfailed, hlate⟩
    · exact hfailed
  have hsome : (recoveryPeers.filter (· ∈
      if decide (retryDelays ≤ attempt) then failed.filter (s.isPending record)
      else failed)).isEmpty = false := by
    rw [List.isEmpty_eq_false_iff_exists_mem]
    exact ⟨peer, hmem⟩
  refine ⟨⟨record, _, recoveryPeers, if decide (retryDelays ≤ attempt) then retryDelays - 1
    else attempt, true⟩, ?_, hlocal, hmem⟩
  simp only [nextRetry, hlive, hlocal, hsome]
  simp

/-- Where nobody was left to be retried, the announcement just ends. -/
theorem Waiting.ends (h : Waiting s) (ha : s.announcements[call]? = some a)
    (hnone : ∀ peer, s.isLocal a.record.recordId = true → ¬a.Covers peer) :
    Waiting (s.setStatus call a .concluded) :=
  h.rearm ha h.timer fun peer _ hor => hor.elim (fun hmine => absurd hmine.2 (hnone peer hmine.1)) .inr

/-- With failures the new timer has them; whom the old one had is among them, or helped. -/
theorem Waiting.retries (h : Waiting s) (ha : s.announcements[call]? = some a)
    (hfailed : a.status.unreached a.candidates = failed) (howner : a.owner.retries = true)
    (attempt : ℕ) (hc : ∀ peer, s.Pends peer → s.TimerCovers peer →
      (s.isLocal a.record.recordId = true ∧ peer ∈ failed) ∨
        (s.setStatus call a .concluded).Helped peer) :
    Waiting ((s.setStatus call a .concluded).schedulePeerRecordRecoveryRetries a.record a.recovers
      failed attempt true) := by
  refine h.rearm ha (fun retry hretry => nextRetry_ok hretry) fun peer hpends hor => ?_
  have hnew : s.isLocal a.record.recordId = true → peer ∈ failed → ({ s with
      retryTimer := s.nextRetry a.record a.recovers failed attempt true } : Node).TimerCovers peer :=
    fun hlocal hpeer => nextRetry_covers attempt (h.live_of_local hlocal) hlocal hpends hpeer
      (h.owned a (List.mem_of_getElem? ha) peer ⟨howner, hfailed ▸ hpeer⟩).2.2
  rcases hor with ⟨hlocal, hcovers⟩ | htimer
  · exact .inr (hnew hlocal (hfailed ▸ hcovers.2))
  · rcases hc peer hpends htimer with ⟨hlocal, hpeer⟩ | hhelped
    · exact .inr (hnew hlocal hpeer)
    · exact .inl hhelped

/-- The owner of an announcement that has ended retries its failures. -/
theorem Waiting.retryFailed (h : Waiting s) (ha : s.announcements[call]? = some a)
    (hfailed : a.status.unreached a.candidates = failed)
    (hc : s.Replaces a failed → ∀ peer, s.Pends peer → s.TimerCovers peer →
      (s.isLocal a.record.recordId = true ∧ peer ∈ failed) ∨
        (s.setStatus call a .concluded).Helped peer) :
    Waiting ((s.setStatus call a .concluded).retryFailed a failed) := by
  have hnone : failed = [] → ∀ peer, s.isLocal a.record.recordId = true → ¬a.Covers peer := by
    rintro rfl peer - hcovers
    have hpeer := hcovers.2
    rw [hfailed] at hpeer
    cases hpeer
  simp only [Replaces] at hc
  simp only [Node.retryFailed]
  split
  · rename_i publisher peers howner
    rw [howner] at hc
    have hrecovers : a.recovers = peers := by rw [Announcement.recovers, howner]
    refine Waiting.published ?_ publisher
    split
    · rename_i hne
      rw [← hrecovers]
      exact h.retries ha hfailed (by rw [howner]; rfl) 0 (hc (.inl hne))
    · rename_i hnil
      rw [not_not] at hnil
      split
      · rename_i hclears
        refine h.rearm ha (by rintro _ ⟨⟩) fun peer hpends hor => ?_
        rcases hor with ⟨hlocal, hcovers⟩ | htimer
        · exact absurd hcovers (hnone hnil peer hlocal)
        · refine .inl ((hc (.inr hclears) peer hpends htimer).resolve_left fun hmine => ?_)
          rw [hnil] at hmine
          cases hmine.2
      · exact h.ends ha (hnone hnil)
  · rename_i recoveryPeers attempt howner
    rw [howner] at hc
    have hrecovers : a.recovers = recoveryPeers := by rw [Announcement.recovers, howner]
    split
    · rename_i hnil
      exact h.ends ha (hnone hnil)
    · rename_i hne
      have hretries : a.owner.retries = true := by rw [howner]; rfl
      obtain ⟨peer, hpeer⟩ := List.exists_mem_of_ne_nil failed hne
      have htrack := (h.owned a (List.mem_of_getElem? ha) peer
        ⟨hretries, hfailed ▸ hpeer⟩).1
      rw [htrack, ← hrecovers]
      exact h.retries ha hfailed hretries (attempt + 1) (hc hne)
  · rename_i howner
    refine h.ends ha fun peer _ hcovers => ?_
    have hretries := hcovers.1
    rw [howner] at hretries
    cases hretries

theorem Waiting.conclude (h : Waiting s) (hc : s.Careful (.conclude call)) :
    Waiting (s.conclude call) := by
  simp only [Node.conclude]
  split
  · exact h
  · rename_i a ha
    split
    · rename_i failed hstatus
      exact h.retryFailed ha (by rw [hstatus]; rfl) (hc a failed ha (.inl hstatus))
    · rename_i hstatus
      split
      · rename_i hhere
        have hlocal : s.isLocal a.record.recordId = true := (Bool.and_eq_true_iff.mp hhere).2
        exact h.retryFailed ha (by rw [hstatus]; rfl) (hc a _ ha (.inr ⟨hstatus, rfl, hlocal⟩))
      · rename_i hgone
        refine h.ends ha fun peer hlocal _ => hgone (Bool.and_eq_true_iff.mpr ⟨?_, hlocal⟩)
        exact h.live_of_local hlocal
    · exact h

end

/-! ### Runs -/

theorem Waiting.step (h : Waiting s) {e : Event} (hscope : InScope e) (hc : s.Careful e) :
    Waiting (s.step e) := by
  cases e with
  | start recordId => exact h.start recordId
  | startPersisted call ok valid => exact h.startPersisted hc
  | renew recordId announce =>
    obtain rfl : announce = true := hscope
    exact h.renew recordId
  | renewPersisted ok valid => exact h.renewPersisted hc
  | renewed => exact h.renewed
  | refresh recordId => exact hscope.elim
  | discover closest =>
    exact ⟨{ h with },
      h.recorded, h.attended⟩
  | report => exact h.report hc
  | microtask valid => exact h.microtask hc
  | announce record peers replaceTargets track => exact h.announce record peers replaceTargets track
  | announced call results => exact h.announced hc
  | conclude call => exact h.conclude hc
  | loop valid => exact h.loop hc
  | workOver => exact h.workOver
  | timer valid => exact h.timerFires valid
  | close => exact hscope.elim
  | closed => exact hscope.elim

/-- In a run in which no wake-up is dropped, a started node that has nothing left to do has placed its
    record. -/
theorem no_lost_wake_up (es : List Event) (hscope : ∀ e ∈ es, InScope e)
    (hcareful : Runs.Along Node.step Careful new es) (hquiet : (run es).Quiescent)
    (hstarted : (run es).started = true) : (run es).peerRecordPropagationReady = true := by
  have hboth := hcareful.and (Runs.along_of_forall hscope)
  have hwaiting : Waiting (run es) := hboth.keeps waiting_new fun t e ht he => ht.step he.2 he.1
  exact hwaiting.quiet hquiet hstarted

/-- A peer fails and is retried, another one is found and published to by the worker. -/
def reached : List Event :=
  [.discover [js "a"], .start (js "r1"), .startPersisted 0 true true, .announced 0 [false], .conclude 0,
    .timer true, .announced 1 [true], .conclude 1, .discover [js "a", js "b"], .report, .microtask true,
    .announced 2 [true], .conclude 2, .loop true, .workOver]

theorem careful_announced {call : ℕ} {results : List Bool}
    (h : ∀ a ∈ s.announcements, a.replacePropagationTargets = false) :
    s.Careful (.announced call results) := by
  intro a ha _ hreplace
  rw [h a (List.mem_of_getElem? ha)] at hreplace
  cases hreplace

theorem careful_conclude {call : ℕ} (h : s.retryTimer = none) : s.Careful (.conclude call) := by
  rintro a failed - - - peer - ⟨retry, hretry, -⟩
  rw [h] at hretry
  cases hretry

theorem no_lost_wake_up_reached : (run reached).peerRecordPropagationReady = true := by
  refine no_lost_wake_up reached (by simp [reached, InScope]) ⟨trivial, trivial, fun _ => ⟨rfl, rfl⟩,
    careful_announced (by decide), careful_conclude (by decide), trivial,
    careful_announced (by decide), careful_conclude (by decide), trivial,
    fun hqueued => ?_, fun record changed rest hqueue => ?_, careful_announced (by decide),
    careful_conclude (by rfl), fun _ _ _ _ => rfl, trivial, trivial⟩
    ⟨by decide, by decide, by decide, by decide, by decide,
      by rfl, by rfl⟩ (by rfl)
  · cases hqueued
  · cases hqueue
    simp only
    rw [if_pos (by decide)]
    trivial

/-! ### Two runs that lose one -/

/-- A peer found while the record is renewed is asked for by a microtask; the worker it leaves that to
    still publishes the record before. -/
def swallowed : List Event :=
  [.discover [js "a"], .start (js "r1"), .startPersisted 0 true true, .announced 0 [true], .conclude 0,
    .discover [js "a", js "b"], .report, .microtask true,
    .renew (js "r2") true, .renewPersisted true true, .announced 2 [true, true], .conclude 2, .renewed,
    .discover [js "a", js "b", js "c"], .report, .microtask true,
    .announced 1 [true], .conclude 1, .loop true, .workOver]

/-- The new record fails at a peer, and the end of the publish of the old one clears its timer. -/
def cleared : List Event :=
  [.discover [js "a"], .start (js "r1"), .startPersisted 0 true true, .announced 0 [true], .conclude 0,
    .discover [js "a", js "b"], .report, .microtask true,
    .renew (js "r2") true, .renewPersisted true true, .announced 2 [true, false], .conclude 2, .renewed,
    .announced 1 [false], .conclude 1, .loop true, .workOver]

/-- Nothing is left to do, and one of the targets was never reached. -/
theorem wake_up_lost :
    ((∀ e ∈ swallowed, InScope e) ∧ (run swallowed).Quiescent ∧ (run swallowed).started = true ∧
      (run swallowed).peerRecordPropagationReady = false ∧
      (run swallowed).propagation.pendingNodeIds = [js "c"]) ∧
    (∀ e ∈ cleared, InScope e) ∧ (run cleared).Quiescent ∧ (run cleared).started = true ∧
      (run cleared).peerRecordPropagationReady = false ∧
      (run cleared).propagation.pendingNodeIds = [js "b"] := by
  refine ⟨⟨by simp [swallowed, InScope], ⟨?_, ?_, ?_, ?_, ?_, ?_, ?_⟩, ?_, ?_, ?_⟩,
    by simp [cleared, InScope], ⟨?_, ?_, ?_, ?_, ?_, ?_, ?_⟩, ?_, ?_, ?_⟩
  all_goals decide

end Node

end Truyn.Propagation
