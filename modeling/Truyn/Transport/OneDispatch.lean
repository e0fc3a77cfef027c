import Truyn.Transport.DirectFirst

/-! transport:one-dispatch | one envelope, few connects, and no close under a lease -/

namespace Truyn.Transport

variable {π : Platform} {cfg : Config}

/-! ### Leases and closes -/

namespace Pool

variable {p q r : Pool} {force : Bool} {c st now : ℕ} {peer binding : JsString}

/-- Every pooled client and every leased client has been made. -/
structure Sound (p : Pool) : Prop where
  pooled : ∀ e ∈ p.connections, e.2.client < p.clients
  leased : ∀ c, p.clients ≤ c → p.clientLeases c = 0

/-- The leases stay, and what is closed unforced is not leased. -/
structure Tidy (p q : Pool) : Prop where
  sound : p.Sound → q.Sound
  leases : q.clientLeases = p.clientLeases
  closed : p.Sound → ∃ gone, q.closed = p.closed ++ gone ∧
    ∀ c, (c, false) ∈ gone → p.clientLeases c = 0

theorem Sound.clientOf (h : p.Sound) (hc : p.clientOf peer = some c) : c < p.clients := by
  obtain ⟨e, he, rfl⟩ := Option.map_eq_some_iff.mp hc
  exact h.pooled _ (Maps.mem_of_get he)

@[refl] theorem Tidy.refl (p : Pool) : Tidy p p :=
  ⟨id, rfl, fun _ => ⟨[], by simp, by simp⟩⟩

theorem Tidy.trans (hpq : Tidy p q) (hqr : Tidy q r) : Tidy p r := by
  refine ⟨fun h => hqr.sound (hpq.sound h), hqr.leases.trans hpq.leases, fun h => ?_⟩
  obtain ⟨first, hfirst, hfree⟩ := hpq.closed h
  obtain ⟨second, hsecond, hfree'⟩ := hqr.closed (hpq.sound h)
  refine ⟨first ++ second, by rw [hsecond, hfirst, List.append_assoc], fun c hc => ?_⟩
  rcases List.mem_append.mp hc with hc | hc
  · exact hfree c hc
  · exact hpq.leases ▸ hfree' c hc

/-- What takes nothing into the pool and closes nothing is tidy. -/
theorem Tidy.of_sub (hcon : ∀ e ∈ q.connections, ∃ e' ∈ p.connections, e'.2.client = e.2.client)
    (hclients : q.clients = p.clients) (hleases : q.clientLeases = p.clientLeases)
    (hclosed : q.closed = p.closed) : Tidy p q := by
  refine ⟨fun h => ⟨fun e he => ?_, fun c hc => ?_⟩, hleases, fun _ => ⟨[], by simp [hclosed], by simp⟩⟩
  · obtain ⟨e', he', heq⟩ := hcon e he
    rw [hclients, ← heq]
    exact h.pooled e' he'
  · rw [hleases]
    exact h.leased c (hclients ▸ hc)

theorem tidy_retire : Tidy p (p.retireClient force c) := by
  unfold retireClient
  split
  · exact .of_sub (fun e he => ⟨e, he, rfl⟩) rfl rfl rfl
  · next hfree =>
    refine ⟨fun h => ⟨h.pooled, h.leased⟩, rfl, fun _ => ⟨[(c, force)], rfl, fun d hd => ?_⟩⟩
    cases List.mem_singleton.mp hd
    by_contra hpos
    exact hfree ⟨rfl, Nat.pos_of_ne_zero hpos⟩

theorem tidy_unpool : Tidy p { p with connections := Maps.delete peer p.connections } :=
  .of_sub (fun e he => ⟨e, Maps.mem_delete he, rfl⟩) rfl rfl rfl

theorem tidy_remove : Tidy p (p.remove force peer) := by
  unfold remove
  split
  · exact tidy_unpool.trans tidy_retire
  · rfl

theorem tidy_discardPending : Tidy p (p.discardPending peer) := by
  unfold discardPending
  split
  · exact .of_sub (fun e he => ⟨e, he, rfl⟩) rfl rfl rfl
  · rfl

theorem tidy_discardConnection : Tidy p (p.discardConnection force peer) :=
  tidy_discardPending.trans tidy_remove

theorem tidy_discardBinding {b : Option JsString} : Tidy p (p.discardBinding peer b) := by
  cases b with
  | none => rfl
  | some b =>
    by_cases h : (p.pending peer).any fun s => s.2.binding = b
    · simp only [discardBinding, if_pos h]
      split
      · exact tidy_discardPending.trans tidy_remove
      · exact tidy_discardPending
    · simp only [discardBinding, if_neg h]
      split
      · exact tidy_remove
      · rfl

theorem tidy_sweep : Tidy p (p.sweepIdleConnections c now) := by
  have hfold : ∀ (es : List (JsString × Pooled)) (q : Pool), Tidy p q →
      Tidy p (es.foldl (fun q e => if now - e.2.lastUsedAt < c then q else remove false e.1 q) q) := by
    intro es
    induction es with
    | nil => exact fun _ h => h
    | cons e es ih =>
      intro q hq
      refine ih _ ?_
      show Tidy p (if now - e.2.lastUsedAt < c then q else remove false e.1 q)
      split
      · exact hq
      · exact hq.trans tidy_remove
  exact hfold p.connections p (.refl p)

theorem tidy_watch : Tidy p (p.watchConnection peer c) := by
  unfold watchConnection
  split
  · exact tidy_unpool
  · rfl

theorem tidy_settle {o : Except Failure ℕ} : Tidy p (p.settle st o) :=
  .of_sub (fun e he => ⟨e, he, rfl⟩) rfl rfl rfl

theorem tidy_forget : Tidy p (p.forgetAttempt peer st) := by
  unfold forgetAttempt
  split
  · exact .of_sub (fun e he => ⟨e, he, rfl⟩) rfl rfl rfl
  · rfl

theorem tidy_begin : Tidy p (p.beginAttempt peer binding) :=
  .of_sub (fun e he => ⟨e, he, rfl⟩) rfl rfl rfl

theorem tidy_touch : Tidy p (p.touch peer now) := by
  unfold touch
  split
  · next e he =>
    refine .of_sub (fun e' he' => ?_) rfl rfl rfl
    rcases Maps.mem_set he' with rfl | hmem
    · exact ⟨_, Maps.mem_of_get he, rfl⟩
    · exact ⟨e', hmem, rfl⟩
  · rfl

/-- A new client is leased by nobody. -/
theorem tidy_dropNew : Tidy p p.dropNew := by
  refine ⟨fun h => ⟨fun e he => ?_, fun c hc => h.leased c ?_⟩, rfl, fun h => ⟨_, rfl, fun c hc => ?_⟩⟩
  · exact Nat.lt_succ_of_lt (h.pooled e he)
  · exact (Nat.le_succ _).trans hc
  · obtain ⟨rfl, -⟩ := Prod.mk.inj (List.mem_singleton.mp hc)
    exact h.leased _ le_rfl

theorem tidy_poolNew : Tidy p (p.poolNew peer binding now) := by
  refine ⟨fun h => ⟨fun e he => ?_, fun c hc => h.leased c ?_⟩, rfl, fun _ => ⟨[], by simp [poolNew], by simp⟩⟩
  · rcases Maps.mem_set he with rfl | hmem
    · exact Nat.lt_succ_self _
    · exact Nat.lt_succ_of_lt (h.pooled e hmem)
  · exact (Nat.le_succ _).trans hc

end Pool

namespace Call

open Pool (Tidy Sound)

variable {op op' : Call} {p p' : Pool} {a : Answer} {r : PeerRecord} {st n other c : ℕ}
  {e : Failure} {place : Place}

/-- What a segment does to the leases: the call that runs takes or gives back its own, and what is
    closed unforced is leased no more. -/
structure Turn (op : Call) (p : Pool) (next : Call × Pool) : Prop where
  sound : p.Sound → next.2.Sound
  leases : (∀ c, op.holds c → 0 < p.clientLeases c) → ∀ c,
    next.2.clientLeases c + (op.holds c).toNat = p.clientLeases c + (next.1.holds c).toNat
  closed : p.Sound → ∃ gone, next.2.closed = p.closed ++ gone ∧
    ∀ c, (c, false) ∈ gone → next.2.clientLeases c = 0

/-- A segment at whose end the call holds nothing. -/
def Quiet (p : Pool) (next : Call × Pool) : Prop :=
  Tidy p next.2 ∧ ∀ c, next.1.holds c = false

theorem Turn.of_quiet {next : Call × Pool} (hop : ∀ c, op.holds c = false) (h : Quiet p next) :
    Turn op p next := by
  refine ⟨h.1.sound, fun _ c => by rw [h.1.leases, hop, h.2], fun hp => ?_⟩
  obtain ⟨gone, hgone, hfree⟩ := h.1.closed hp
  exact ⟨gone, hgone, fun c hc => by rw [h.1.leases, hfree c hc]⟩

theorem holds_leave (op : Call) (c : ℕ) : (op.leave cfg).holds c = false := by
  unfold leave
  split <;> rfl

theorem quiet_settleOwn {o : Except Failure ℕ} (h : Tidy p p') :
    Quiet p (op.settleOwn r st o p') := ⟨h.trans Pool.tidy_settle, fun _ => rfl⟩

theorem quiet_connect : Quiet p (op.connect π r p) := by
  unfold connect
  split
  · exact ⟨.refl p, fun _ => rfl⟩
  · dsimp only
    split
    · split
      · exact ⟨.refl p, fun _ => rfl⟩
      · exact ⟨Pool.tidy_discardPending.trans Pool.tidy_begin, fun _ => rfl⟩
    · exact ⟨Pool.tidy_begin, fun _ => rfl⟩

theorem quiet_directClient : Quiet p (op.directClient π cfg r a p) := by
  unfold directClient
  split
  · exact ⟨.refl p, fun _ => rfl⟩
  · split
    · split
      · split
        · exact ⟨Pool.tidy_touch, fun _ => rfl⟩
        · refine ⟨?_, fun _ => rfl⟩
          dsimp only
          exact Pool.tidy_discardBinding
      · exact ⟨Pool.tidy_discardConnection, fun _ => rfl⟩
    · exact quiet_connect

theorem quiet_tryDirect : Quiet p (op.tryDirect π cfg r a p) := by
  unfold tryDirect
  split
  · exact ⟨.refl p, fun _ => rfl⟩
  · exact quiet_directClient

theorem quiet_attempt : Quiet p (op.attempt π r st n a p) := by
  unfold attempt
  split
  · exact quiet_settleOwn (.refl p)
  · split
    · exact quiet_settleOwn (.refl p)
    · exact ⟨.refl p, fun _ => rfl⟩

theorem quiet_connected : Quiet p (op.connected π cfg r st n a p) := by
  unfold connected
  split
  · split
    · exact quiet_settleOwn (.refl p)
    · exact ⟨.refl p, fun _ => rfl⟩
  · split
    · exact ⟨Pool.tidy_dropNew, fun _ => rfl⟩
    · exact quiet_settleOwn Pool.tidy_poolNew

theorem quiet_superseded : Quiet p (op.superseded r st p) := by
  unfold superseded
  split
  · split
    · exact ⟨.refl p, fun _ => rfl⟩
    · exact quiet_settleOwn (.refl p)
  · split
    · exact quiet_settleOwn (.refl p)
    · exact quiet_settleOwn (.refl p)

theorem quiet_replacedBy (hop : ∀ c, op.holds c = false) :
    Quiet p (op.replacedBy r st other a p) := by
  unfold replacedBy
  split
  · exact quiet_settleOwn (.refl p)
  · exact ⟨.refl p, hop⟩

theorem holds_took {o : Except Failure ℕ} : (op.took r o).holds c = false := by
  cases o with
  | ok d => rfl
  | error e => rfl

theorem quiet_ownSettled (hop : ∀ c, op.holds c = false) : Quiet p (op.ownSettled r st p) := by
  unfold ownSettled
  split
  · exact ⟨Pool.tidy_forget, fun _ => holds_took⟩
  · exact ⟨.refl p, hop⟩

theorem quiet_joined (hop : ∀ c, op.holds c = false) : Quiet p (op.joined r st a p, p) := by
  refine ⟨.refl p, fun c => ?_⟩
  unfold joined
  split
  · exact holds_took
  · exact hop c

theorem holds_retry : (op.retry cfg r e a).holds c = false := by
  unfold retry
  split
  · rfl
  · split
    · by_cases h : 2000 < op.remainingMs a.now
      · simp [holds, h]
      · simp [holds, h]
    · exact holds_leave op c

theorem holds_sending (h : op.place = .sending r c) (d : ℕ) : op.holds d = decide (c = d) := by
  simp [holds, h]

/-- A pooled client is leased. -/
theorem turn_lease (hop : ∀ d, op.holds d = false) (hnext : op'.place = .sending r c)
    {peer : JsString} (hpooled : p.clientOf peer = some c) : Turn op p (op', p.leaseClient c) := by
  refine ⟨fun h => ⟨h.pooled, fun d hd => ?_⟩, fun _ d => ?_, fun _ => ⟨[], ?_, by simp⟩⟩
  · have hd' : p.clients ≤ d := hd
    have hc := h.clientOf hpooled
    have hne : d ≠ c := by omega
    simp only [Pool.leaseClient, Function.update_of_ne hne]
    exact h.leased d hd'
  · simp only [hop, holds_sending hnext, Pool.leaseClient]
    rcases eq_or_ne c d with rfl | hne
    · simp
    · simp [hne, Function.update_of_ne hne.symm]
  · simp [Pool.leaseClient]

/-- The call gives its lease back, and the last lease of a retired client closes it. -/
theorem turn_release (hop : op.place = .sending r c) (hnext : ∀ d, op'.holds d = false) :
    Turn op p (op', p.releaseClient c) := by
  have hleases : (∀ d, op.holds d → 0 < p.clientLeases d) → ∀ d,
      Function.update p.clientLeases c
        ((if p.clientLeases c = 0 then 1 else p.clientLeases c) - 1) d + (op.holds d).toNat =
      p.clientLeases d + (op'.holds d).toNat := by
    intro hpos d
    have hc := hpos c (by simp [holds_sending hop])
    rw [hnext, holds_sending hop]
    rcases eq_or_ne c d with rfl | hne
    · simp [hc.ne']
      omega
    · simp [hne, Function.update_of_ne hne.symm]
  have hsound : p.Sound → ∀ d, p.clients ≤ d → Function.update p.clientLeases c
      ((if p.clientLeases c = 0 then 1 else p.clientLeases c) - 1) d = 0 := by
    intro h d hd
    have hfree := h.leased d hd
    rcases eq_or_ne c d with rfl | hne
    · simp [hfree]
    · rw [Function.update_of_ne hne.symm, hfree]
  unfold Pool.releaseClient
  dsimp only
  generalize (if p.clientLeases c = 0 then 1 else p.clientLeases c) - 1 = remaining at *
  split
  · exact ⟨fun h => ⟨h.pooled, hsound h⟩, hleases, fun _ => ⟨[], by simp, by simp⟩⟩
  · next hlast =>
    split
    · refine ⟨fun h => ⟨h.pooled, hsound h⟩, hleases, fun _ => ⟨[(c, false)], rfl, fun d hd => ?_⟩⟩
      obtain ⟨rfl, -⟩ := Prod.mk.inj (List.mem_singleton.mp hd)
      simpa [Pool.disconnectClient] using Nat.eq_zero_of_not_pos hlast
    · exact ⟨fun h => ⟨h.pooled, hsound h⟩, hleases, fun _ => ⟨[], by simp, by simp⟩⟩

theorem turn_dispatch (hop : ∀ c, op.holds c = false) : Turn op p (op.dispatch r c a p) := by
  unfold dispatch
  split
  · exact .of_quiet hop ⟨.refl p, fun _ => rfl⟩
  · next hpooled =>
    refine turn_lease (r := r) hop ?_ (not_not.mp hpooled)
    dsimp only
    split <;> rfl

theorem turn_sent (hop : op.place = .sending r c) : Turn op p (op.sent r c a p) := by
  unfold sent
  split
  · exact turn_release hop fun _ => rfl
  · exact turn_release hop fun _ => rfl

theorem quiet_go (p : Pool) (h : ∀ c, op'.holds c = false) : Quiet p (op', p) := ⟨.refl p, h⟩

/-- EACH SEGMENT changes the leases as its own call holds and closes nothing that is leased. -/
theorem turn_resume (π : Platform) (cfg : Config) (op : Call) (a : Answer) (p : Pool) :
    Turn op p (op.resume π cfg a p) := by
  by_cases hsends : ∃ r c, op.place = .sending r c
  · obtain ⟨r, c, hplace⟩ := hsends
    rw [resume, hplace]
    exact turn_sent hplace
  · have hop : ∀ c, op.holds c = false := by
      intro c
      cases hplace : op.place <;> simp_all [holds]
    unfold resume
    split
    · refine .of_quiet hop (quiet_go p fun c => ?_)
      unfold admitted
      split <;> rfl
    · refine .of_quiet hop (quiet_go p fun c => ?_)
      unfold discovered
      split
      · rfl
      · rfl
      · exact holds_leave op c
    · exact .of_quiet hop quiet_tryDirect
    · exact .of_quiet hop quiet_connect
    · exact .of_quiet hop quiet_attempt
    · exact .of_quiet hop quiet_connected
    · exact .of_quiet hop quiet_superseded
    · exact .of_quiet hop (quiet_replacedBy hop)
    · exact .of_quiet hop (quiet_joined hop)
    · exact .of_quiet hop (quiet_ownSettled hop)
    · exact turn_dispatch hop
    · next r c hplace => exact absurd ⟨r, c, hplace⟩ hsends
    · exact .of_quiet hop ⟨Pool.tidy_discardBinding, fun _ => rfl⟩
    · exact .of_quiet hop (quiet_go p fun c => holds_retry)
    · refine .of_quiet hop (quiet_go p fun c => ?_)
      unfold rediscovered
      split
      · split <;> rfl
      · rfl
    · refine .of_quiet hop (quiet_go p fun c => ?_)
      unfold compared
      split
      · split
        · rfl
        · exact holds_leave op c
      · exact holds_leave op c
    · refine .of_quiet hop (quiet_go p fun c => ?_)
      unfold relay
      split
      · rfl
      · dsimp only
        split <;> rfl
    · refine .of_quiet hop (quiet_go p fun c => ?_)
      unfold relayed
      split <;> rfl
    · exact .of_quiet hop (quiet_go p hop)

end Call

/-! ### Dispatches and connects -/

/-- Before the envelope has entered a transport. -/
def Place.early : Place → Bool
  | .sending .. | .failing .. | .caught .. | .relaying | .done _ => false
  | _ => true

/-- The attempts made for the record at hand, and no more of them at its end. -/
def Place.tries (most : ℕ) : Place → ℕ
  | .waiting | .discovering | .trying _ | .cleared _ | .rediscovering _ | .unchanged _ => 0
  | .attempting _ _ n => n
  | .connecting _ _ n => n + 1
  | _ => most

def Place.Within (most : ℕ) : Place → Prop
  | .attempting _ _ n | .connecting _ _ n => n < most
  | _ => True

theorem Place.Within.tries_le {most : ℕ} {place : Place} (h : place.Within most) :
    place.tries most ≤ most := by
  cases place with
  | attempting r st n => exact Nat.le_of_lt h
  | connecting r st n => exact h
  | _ => simp [Place.tries]

namespace Call

variable {op op' : Call} {p : Pool} {a : Answer} {r : PeerRecord} {st n other c : ℕ}
  {e : Failure} {place : Place}

/-- Each record that is tried costs so many attempts at most, and a further record costs one of the
    superseded retries or the one recovery. -/
structure Proper (cfg : Config) (op : Call) : Prop where
  handed : op.handed.length ≤ 1
  unsent : op.applicationDispatched = false → op.handed = []
  early : op.place.early = true → op.applicationDispatched = false
  retries : op.supersededAttempt ≤ cfg.supersededRetries
  recovery : op.connectTimeoutRecoveryAttempt ≤ 1
  connects : op.connects.length ≤
    (op.supersededAttempt + op.connectTimeoutRecoveryAttempt) * cfg.directConnectAttempts +
      op.place.tries cfg.directConnectAttempts
  within : op.place.Within cfg.directConnectAttempts

theorem proper_start {peer : JsString} {allow : Bool} {d : Option ℕ} :
    Proper cfg (start peer allow d) :=
  ⟨Nat.zero_le 1, fun _ => rfl, fun _ => rfl, Nat.zero_le _, Nat.zero_le _, Nat.zero_le _, trivial⟩

/-- Going on elsewhere, where no fewer attempts are allowed for. -/
theorem Proper.go (h : Proper cfg op) (hearly : place.early = true → op.place.early = true)
    (htries : op.place.tries cfg.directConnectAttempts ≤ place.tries cfg.directConnectAttempts)
    (hwithin : place.Within cfg.directConnectAttempts) : Proper cfg (op.go place) :=
  { h with early := fun hp => h.early (hearly hp), connects := h.connects.trans (Nat.add_le_add_left htries _), within := hwithin }

/-- Going on where no more attempts are made. -/
theorem Proper.after (h : Proper cfg op) (hearly : place.early = true → op.place.early = true)
    (htries : place.tries cfg.directConnectAttempts = cfg.directConnectAttempts)
    (hwithin : place.Within cfg.directConnectAttempts) : Proper cfg (op.go place) :=
  h.go hearly (by rw [htries]; exact h.within.tries_le) hwithin

theorem proper_leave (h : Proper cfg op) : Proper cfg (op.leave cfg) := by
  unfold leave
  split
  · exact h.after (by simp [Place.early]) rfl trivial
  · next hgo =>
    have hunsent : op.applicationDispatched = false := by
      rcases hd : op.applicationDispatched with _ | _
      · rfl
      · simp [hd] at hgo
    exact { h with early := fun _ => hunsent, connects := h.connects.trans (Nat.add_le_add_left h.within.tries_le _), within := trivial }

theorem proper_fail (h : Proper cfg op) : Proper cfg (op.go (.failing r e)) :=
  h.after (by simp [Place.early]) rfl trivial

theorem proper_settleOwn {o : Except Failure ℕ} (h : Proper cfg op) (hearly : op.place.early = true) :
    Proper cfg (op.settleOwn r st o p).1 := h.after (fun _ => hearly) rfl trivial

theorem proper_connect (h : Proper cfg op) (hearly : op.place.early = true)
    (hnone : op.place.tries cfg.directConnectAttempts = 0) :
    Proper cfg (op.connect π r p).1 := by
  have hattempting : ∀ r st, Proper cfg (op.go (.attempting r st 0)) := fun r st =>
    h.go (fun _ => hearly) hnone.le cfg.attempts_pos
  unfold connect
  split
  · exact proper_fail h
  · dsimp only
    split
    · split
      · exact h.after (fun _ => hearly) rfl trivial
      · exact hattempting _ _
    · exact hattempting _ _

theorem proper_tryDirect (h : Proper cfg op) (hplace : op.place = .trying r) :
    Proper cfg (op.tryDirect π cfg r a p).1 := by
  have hearly : op.place.early = true := by rw [hplace]; rfl
  have hnone : op.place.tries cfg.directConnectAttempts = 0 := by rw [hplace]; rfl
  unfold tryDirect
  split
  · exact proper_fail h
  · unfold directClient
    split
    · exact proper_fail h
    · split
      · split
        · split
          · exact h.after (fun _ => hearly) rfl trivial
          · exact h.go (fun _ => hearly) hnone.le trivial
        · exact h.go (fun _ => hearly) hnone.le trivial
      · exact proper_connect h hearly hnone

theorem proper_attempt (h : Proper cfg op) (hplace : op.place = .attempting r st n) :
    Proper cfg (op.attempt π r st n a p).1 := by
  have hearly : op.place.early = true := by rw [hplace]; rfl
  have hwithin := h.within
  have hconnects := h.connects
  rw [hplace] at hwithin hconnects
  unfold attempt
  split
  · exact proper_settleOwn h hearly
  · split
    · exact proper_settleOwn h hearly
    · refine { h with early := fun _ => h.early hearly, connects := ?_, within := hwithin }
      simp only [Place.tries, List.length_append, List.length_singleton] at hconnects ⊢
      omega

theorem proper_connected (h : Proper cfg op) (hplace : op.place = .connecting r st n) :
    Proper cfg (op.connected π cfg r st n a p).1 := by
  have hearly : op.place.early = true := by rw [hplace]; rfl
  unfold connected
  split
  · split
    · exact proper_settleOwn h hearly
    · next hmore =>
      refine h.go (fun _ => hearly) (by rw [hplace]; exact le_rfl) ?_
      simp only [not_or, not_le] at hmore
      exact hmore.2.2
  · split
    · exact h.after (fun _ => hearly) rfl trivial
    · exact proper_settleOwn h hearly

theorem proper_superseded (h : Proper cfg op) (hearly : op.place.early = true) :
    Proper cfg (op.superseded r st p).1 := by
  unfold superseded
  split
  · split
    · exact h.after (fun _ => hearly) rfl trivial
    · exact proper_settleOwn h hearly
  · split
    · exact proper_settleOwn h hearly
    · exact proper_settleOwn h hearly

theorem proper_took {o : Except Failure ℕ} (h : Proper cfg op) (hearly : op.place.early = true) :
    Proper cfg (op.took r o) := by
  cases o with
  | ok c => exact h.after (fun _ => hearly) rfl trivial
  | error e => exact proper_fail h

theorem proper_dispatch (h : Proper cfg op) (hearly : op.place.early = true) :
    Proper cfg (op.dispatch r c a p).1 := by
  have hnone := h.unsent (h.early hearly)
  have hconnects := h.connects.trans (Nat.add_le_add_left h.within.tries_le _)
  unfold dispatch
  split
  · exact proper_fail h
  · dsimp only
    split
    · exact ⟨h.handed, by simp, by simp [Place.early], h.retries, h.recovery, hconnects, trivial⟩
    · refine ⟨?_, by simp, by simp [Place.early], h.retries, h.recovery, hconnects, trivial⟩
      simp [hnone]

theorem proper_relay (h : Proper cfg op) (hearly : op.place.early = true) :
    Proper cfg (op.relay a) := by
  have hnone := h.unsent (h.early hearly)
  have hconnects := h.connects.trans (Nat.add_le_add_left h.within.tries_le _)
  unfold relay
  split
  · exact h.after (by simp [Place.early]) rfl trivial
  · dsimp only
    split
    · exact ⟨h.handed, by simp, by simp [Place.early], h.retries, h.recovery, hconnects, trivial⟩
    · refine ⟨?_, by simp, by simp [Place.early], h.retries, h.recovery, hconnects, trivial⟩
      simp [hnone]

/-- A further record is tried for one of the superseded retries or the recovery. -/
theorem proper_retry (h : Proper cfg op) : Proper cfg (op.retry cfg r e a) := by
  have hconnects := h.connects.trans (Nat.add_le_add_left h.within.tries_le _)
  unfold retry
  split
  · next hmore =>
    refine ⟨h.handed, h.unsent, fun _ => hmore.1, hmore.2.2.1, h.recovery, ?_, trivial⟩
    calc op.connects.length
        ≤ (op.supersededAttempt + op.connectTimeoutRecoveryAttempt) * cfg.directConnectAttempts +
          cfg.directConnectAttempts := hconnects
      _ = (op.supersededAttempt + 1 + op.connectTimeoutRecoveryAttempt) *
          cfg.directConnectAttempts + 0 := by ring
  · split
    · next hmore =>
      have hrecovery : op.connectTimeoutRecoveryAttempt + 1 ≤ 1 := by
        have := hmore.2.2.1
        omega
      have hspent : op.connects.length ≤ (op.supersededAttempt +
          (op.connectTimeoutRecoveryAttempt + 1)) * cfg.directConnectAttempts + 0 := by
        calc op.connects.length
            ≤ (op.supersededAttempt + op.connectTimeoutRecoveryAttempt) *
              cfg.directConnectAttempts + cfg.directConnectAttempts := hconnects
          _ = _ := by ring
      by_cases htime : 2000 < op.remainingMs a.now
      · simp only [if_pos htime]
        exact ⟨h.handed, h.unsent, fun _ => hmore.1, h.retries, hrecovery, hspent, trivial⟩
      · simp only [if_neg htime]
        exact ⟨h.handed, h.unsent, fun _ => hmore.1, h.retries, hrecovery, hspent, trivial⟩
    · exact proper_leave h

/-- EACH SEGMENT keeps a call proper. -/
theorem proper_resume (h : Proper cfg op) (a : Answer) (p : Pool) :
    Proper cfg (op.resume π cfg a p).1 := by
  have hhead : ∀ {place r}, op.place = place → place.early = true →
      place.tries cfg.directConnectAttempts = 0 → Proper cfg (op.go (.trying r)) := by
    intro place r hplace hearly hnone
    exact h.go (fun _ => hplace ▸ hearly) (by rw [hplace, hnone]; exact le_rfl) trivial
  unfold resume
  split
  · next hplace =>
    unfold admitted
    split
    · exact h.after (by simp [Place.early]) rfl trivial
    · refine { h with early := fun _ => h.early (by rw [hplace]; rfl), connects := ?_, within := trivial }
      simpa [hplace, Place.tries] using h.connects
  · next hplace =>
    unfold discovered
    split
    · exact h.after (by simp [Place.early]) rfl trivial
    · exact hhead hplace rfl rfl
    · exact proper_leave h
  · next hplace => exact proper_tryDirect h hplace
  · next hplace => exact proper_connect h (by rw [hplace]; rfl) (by rw [hplace]; rfl)
  · next hplace => exact proper_attempt h hplace
  · next hplace => exact proper_connected h hplace
  · next hplace => exact proper_superseded h (by rw [hplace]; rfl)
  · next hplace =>
    unfold replacedBy
    split
    · exact proper_settleOwn h (by rw [hplace]; rfl)
    · exact h
  · next hplace =>
    unfold joined
    split
    · exact proper_took h (by rw [hplace]; rfl)
    · exact h
  · next hplace =>
    unfold ownSettled
    split
    · exact proper_took h (by rw [hplace]; rfl)
    · exact h
  · next hplace => exact proper_dispatch h (by rw [hplace]; rfl)
  · unfold sent
    split
    · exact proper_fail h
    · exact h.after (by simp [Place.early]) rfl trivial
  · refine { h with early := by simp [catching, Place.early], connects := ?_, within := trivial }
    exact h.connects.trans (Nat.add_le_add_left h.within.tries_le _)
  · exact proper_retry h
  · next hplace =>
    unfold rediscovered
    split
    · split
      · exact hhead hplace rfl rfl
      · exact h.go (fun _ => by rw [hplace]; rfl) (by rw [hplace]; exact le_rfl) trivial
    · exact h.go (fun _ => by rw [hplace]; rfl) (by rw [hplace]; exact le_rfl) trivial
  · next hplace =>
    unfold compared
    split
    · split
      · exact hhead hplace rfl rfl
      · exact proper_leave h
    · exact proper_leave h
  · next hplace => exact proper_relay h (by rw [hplace]; rfl)
  · unfold relayed
    split
    · exact h.after (by simp [Place.early]) rfl trivial
    · exact h.after (by simp [Place.early]) rfl trivial
  · exact h

end Call

/-! ### Whole runs -/

namespace P2P

variable {s : P2P} {e : Event}

/-- The pool is sound, its counts are the leases the calls hold, and each call is proper. -/
structure Sound (cfg : Config) (s : P2P) : Prop where
  pool : s.pool.Sound
  leases : Leases.Counted Call.holds s.calls s.pool.clientLeases
  calls : ∀ op ∈ s.calls, Call.Proper cfg op

theorem sound_empty : Sound cfg empty :=
  ⟨⟨by simp [empty, Pool.empty], fun _ _ => rfl⟩, .nil, by simp [empty]⟩

theorem step_resume {i : ℕ} {op : Call} {a : Answer} (hi : s.calls[i]? = some op) :
    step π cfg s (.resume i a) =
      ⟨s.calls.set i (op.resume π cfg a s.pool).1, (op.resume π cfg a s.pool).2⟩ := by
  simp [step, hi]

theorem step_resume_none {i : ℕ} {a : Answer} (hi : s.calls[i]? = none) :
    step π cfg s (.resume i a) = s := by simp [step, hi]

/-- A step keeps all this, and what it closes unforced is leased no more. -/
theorem sound_step (h : Sound cfg s) (e : Event) : Sound cfg (step π cfg s e) ∧
    ∃ gone, (step π cfg s e).pool.closed = s.pool.closed ++ gone ∧
      ∀ c, (c, false) ∈ gone → (step π cfg s e).pool.clientLeases c = 0 := by
  have htidy : ∀ q : Pool, s.pool.Tidy q → Sound cfg { s with pool := q } ∧
      ∃ gone, q.closed = s.pool.closed ++ gone ∧ ∀ c, (c, false) ∈ gone → q.clientLeases c = 0 := by
    intro q hq
    refine ⟨⟨hq.sound h.pool, by rw [hq.leases]; exact h.leases, h.calls⟩, ?_⟩
    rw [hq.leases]
    exact hq.closed h.pool
  cases e with
  | send peer allow deadline =>
    refine ⟨⟨h.pool, h.leases.concat fun _ => rfl, fun op hop => ?_⟩, [], by simp [step], by simp⟩
    rcases List.mem_append.mp hop with hop | hop
    · exact h.calls op hop
    · rw [List.mem_singleton.mp hop]
      exact Call.proper_start
  | resume i a =>
    cases hi : s.calls[i]? with
    | none =>
      rw [step_resume_none hi]
      exact ⟨h, [], by simp, by simp⟩
    | some op =>
      rw [step_resume hi]
      have hop := List.mem_of_getElem? hi
      have hturn := Call.turn_resume π cfg op a s.pool
      have hheld : ∀ c, op.holds c → 0 < s.pool.clientLeases c := fun c hc => h.leases.pos hop hc
      refine ⟨⟨hturn.sound h.pool, h.leases.set hi (hturn.leases hheld), fun op' hop' => ?_⟩,
        hturn.closed h.pool⟩
      rcases List.mem_or_eq_of_mem_set hop' with hop' | rfl
      · exact h.calls op' hop'
      · exact Call.proper_resume (h.calls op hop) a s.pool
  | sweepIdleConnections now => exact htidy _ Pool.tidy_sweep
  | closed peer c => exact htidy _ Pool.tidy_watch
  | retire peer => exact htidy _ Pool.tidy_discardConnection
  | forget peer => exact htidy _ Pool.tidy_discardConnection
  | late => exact htidy _ Pool.tidy_dropNew

theorem sound_run (π : Platform) (cfg : Config) (es : List Event) : Sound cfg (run π cfg es) := by
  have hkeep : ∀ (es : List Event) (s : P2P), Sound cfg s → Sound cfg (es.foldl (step π cfg) s) := by
    intro es
    induction es with
    | nil => exact fun _ h => h
    | cons e es ih => exact fun s h => ih _ (sound_step h e).1
  exact hkeep es empty sound_empty

/-- ONE DISPATCH: in every run each call hands its envelope over at most once and makes so many
    connects at most, and what a step closes unforced is leased by no call but the one that runs. -/
theorem one_dispatch (π : Platform) (cfg : Config) (es : List Event) :
    (∀ op ∈ (run π cfg es).calls, op.handed.length ≤ 1 ∧
      op.connects.length ≤ (cfg.supersededRetries + 2) * cfg.directConnectAttempts) ∧
    ∀ e c, (c, false) ∈ disconnected π cfg (run π cfg es) e →
      (∀ op ∈ (step π cfg (run π cfg es) e).calls, op.holds c = false) ∧
      ∀ i op, (run π cfg es).calls[i]? = some op → op.holds c = true → ∃ a, e = .resume i a := by
  have hsound := sound_run π cfg es
  refine ⟨fun op hop => ?_, fun e c hc => ?_⟩
  · have hproper := hsound.calls op hop
    refine ⟨hproper.handed, hproper.connects.trans ?_⟩
    have hcount : op.supersededAttempt + op.connectTimeoutRecoveryAttempt + 1 ≤
        cfg.supersededRetries + 2 := by
      have hretries := hproper.retries
      have hrecovery := hproper.recovery
      omega
    calc _ ≤ (op.supersededAttempt + op.connectTimeoutRecoveryAttempt) *
            cfg.directConnectAttempts + cfg.directConnectAttempts :=
          Nat.add_le_add_left hproper.within.tries_le _
      _ = (op.supersededAttempt + op.connectTimeoutRecoveryAttempt + 1) *
            cfg.directConnectAttempts := by ring
      _ ≤ _ := Nat.mul_le_mul_right _ hcount
  · obtain ⟨hnext, gone, hgone, hfree⟩ := sound_step (π := π) hsound e
    rw [disconnected, hgone, List.drop_left] at hc
    have hnobody := hnext.leases.free (hfree c hc)
    refine ⟨hnobody, fun i op hi hold => ?_⟩
    by_contra hother
    have hstays : op ∈ (step π cfg (run π cfg es) e).calls := by
      have hop := List.mem_of_getElem? hi
      cases e with
      | send peer allow deadline => exact List.mem_append_left _ hop
      | resume j a =>
        have hne : j ≠ i := fun hj => hother ⟨a, by rw [hj]⟩
        cases hj : (run π cfg es).calls[j]? with
        | none =>
          rw [step_resume_none hj]
          exact hop
        | some op' =>
          rw [step_resume hj]
          refine List.mem_of_getElem? (i := i) ?_
          rw [List.getElem?_set_ne hne]
          exact hi
      | _ => exact hop
    rw [hnobody op hstays] at hold
    cases hold

end P2P

end Truyn.Transport
