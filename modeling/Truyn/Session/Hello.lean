import Truyn.Trust.Claims
import Truyn.Witness.Payload
import Truyn.Schemes.Along

/-! session:hello | what a responder accepts as the HELLO of a session

    A HELLO names its peer by the key that signs it and is fresh for as long as its timestamp is within
    the clock skew. What was accepted is remembered by peer and nonce, in a set of bounded size that
    forgets its oldest member first, however fresh the HELLO is that it stands for. -/

namespace Truyn.Session
open Checks

/-- What the code uses of its platform: `Date.parse` of a string, and `nodeIdFromPublicKey` and
    `verifyValue`, which may throw. -/
structure Platform where
  parseDate : JsString → Option ℤ
  nodeIdFromPublicKey : Json → Except JsString JsString
  verifyValue : Json → Json → Json → Except JsString Bool

/-- The options of the responder. -/
structure Options where
  maxSkewMs : ℕ
  maxEntries : ℕ
  localProtocols : List JsString
  localSemantics : List JsString
  localRequiredSemantics : List JsString

def peerSessionProtocol : JsString := js "truyn-peer-session-v1"

/-- `[PROTOCOL]` -/
def baseline : List JsString := [js "TRUYN/1"]

/-! ### The negotiation of a protocol -/

def uniqueStrings (values : List JsString) : List JsString :=
  setOf ((values.filter fun value => !blank value).map trim)

/-- The number of a canonical, safely representable generation `TRUYN/n`. -/
def protocolGeneration (protocol : JsString) : Option ℕ :=
  let digits := protocol.drop 6
  if protocol.take 6 = js "TRUYN/" ∧ digits ≠ [] ∧ digits.head? ≠ some 48 ∧
      (digits.all fun u => 48 ≤ u ∧ u ≤ 57) ∧ numeralValue digits ≤ 2 ^ 53 - 1 then
    some (numeralValue digits)
  else none

/-- Why a HELLO is refused. `mismatch` has the code `version_mismatch`, with the protocol and the
    semantics that are missing, if any are. -/
inductive Refusal
  | reason (text : JsString)
  | mismatch (text : JsString) (missing : Option (JsString × List JsString))

structure Negotiated where
  protocol : JsString
  semantics : List JsString

def negotiateProtocol (localProtocols remoteProtocols localSemantics remoteSemantics
    requiredSemantics : List JsString) : Except Refusal Negotiated :=
  let remote := uniqueStrings remoteProtocols
  let common := ((uniqueStrings localProtocols).filter fun protocol =>
      (protocolGeneration protocol).isSome && remote.contains protocol).insertionSort
    fun left right => (protocolGeneration right).getD 0 ≤ (protocolGeneration left).getD 0
  match common with
  | [] => .error (.mismatch (js "no_protocol_overlap") none)
  | selected :: _ =>
    let here := uniqueStrings localSemantics
    let there := uniqueStrings remoteSemantics
    let missing := (sortStrings (uniqueStrings requiredSemantics)).filter fun semantic =>
      !here.contains semantic || !there.contains semantic
    if missing ≠ [] then
      .error (.mismatch (js "required_semantic_unavailable") (some (selected, missing)))
    else .ok ⟨selected, sortStrings (here.filter there.contains)⟩

variable {here there : List JsString} {p : JsString}

/-- A generation has one name. -/
theorem protocolGeneration_eq {n : ℕ} (h : protocolGeneration p = some n) :
    p = js "TRUYN/" ++ numeral n := by
  simp only [protocolGeneration] at h
  split at h
  · next hcanonical =>
    obtain ⟨hhead, hne, hzero, hdigits, -⟩ := hcanonical
    cases h
    rw [numeral_numeralValue hne hzero (by simpa using hdigits), ← hhead, List.take_append_drop]
  · cases h

abbrev newer (left right : JsString) : Prop :=
  (protocolGeneration right).getD 0 ≤ (protocolGeneration left).getD 0

instance : IsTrans JsString newer := ⟨fun _ _ _ h h' => h'.trans h⟩

instance : Std.Total newer := ⟨fun _ _ => le_total _ _⟩

/-- The generations of both sides, the newest first. -/
def common (here there : List JsString) : List JsString :=
  ((uniqueStrings here).filter fun protocol =>
    (protocolGeneration protocol).isSome && (uniqueStrings there).contains protocol).insertionSort newer

theorem mem_common : p ∈ common here there ↔
    p ∈ uniqueStrings here ∧ (protocolGeneration p).isSome ∧ p ∈ uniqueStrings there := by
  simp [common]

theorem common_comm (here there : List JsString) : common here there = common there here := by
  have hnodup : ∀ a b, (common a b).Nodup := fun a b =>
    (List.perm_insertionSort _ _).nodup_iff.mpr ((nodup_setOf _).filter _)
  have hperm : (common here there).Perm (common there here) :=
    (List.perm_ext_iff_of_nodup (hnodup _ _) (hnodup _ _)).mpr fun p => by
      rw [mem_common, mem_common]
      tauto
  refine hperm.eq_of_pairwise (fun p q hp hq hle hge => ?_) (List.pairwise_insertionSort newer _)
    (List.pairwise_insertionSort newer _)
  obtain ⟨m, hm⟩ := Option.isSome_iff_exists.mp (mem_common.mp hp).2.1
  obtain ⟨n, hn⟩ := Option.isSome_iff_exists.mp (mem_common.mp hq).2.1
  rw [newer, hm, hn] at hle hge
  obtain rfl : m = n := le_antisymm hge hle
  rw [protocolGeneration_eq hm, protocolGeneration_eq hn]

/-- What both have. -/
theorem mem_shared {s : JsString} :
    s ∈ sortStrings (here.filter there.contains) ↔ s ∈ here ∧ s ∈ there := by
  simp [(sortStrings_perm _).mem_iff]

theorem shared_comm (hhere : here.Nodup) (hthere : there.Nodup) :
    sortStrings (here.filter there.contains) = sortStrings (there.filter here.contains) :=
  sortStrings_eq ((List.perm_ext_iff_of_nodup (hhere.filter _) (hthere.filter _)).mpr fun s => by
    simp [and_comm])

/-- A required semantic is missing just when one side does not have it. -/
theorem missing_eq_nil {required : List JsString} :
    ((sortStrings required).filter fun s => !here.contains s || !there.contains s) = [] ↔
      ∀ s ∈ required, s ∈ here ∧ s ∈ there := by
  simp [List.filter_eq_nil_iff, (sortStrings_perm _).mem_iff]

/-- Both sides negotiate the same. They agree when they have a generation in common and both have all
    that is required: on the newest generation that both have, with exactly the semantics that both
    have. -/
theorem negotiated_alike (localProtocols remoteProtocols localSemantics remoteSemantics
    requiredSemantics : List JsString) :
    negotiateProtocol localProtocols remoteProtocols localSemantics remoteSemantics
        requiredSemantics =
      negotiateProtocol remoteProtocols localProtocols remoteSemantics localSemantics
        requiredSemantics ∧
    ((∃ n, negotiateProtocol localProtocols remoteProtocols localSemantics remoteSemantics
        requiredSemantics = .ok n) ↔
      (∃ p, p ∈ common localProtocols remoteProtocols) ∧ ∀ s ∈ uniqueStrings requiredSemantics,
        s ∈ uniqueStrings localSemantics ∧ s ∈ uniqueStrings remoteSemantics) ∧
    ∀ n, negotiateProtocol localProtocols remoteProtocols localSemantics remoteSemantics
        requiredSemantics = .ok n →
      n.protocol ∈ common localProtocols remoteProtocols ∧
      (∀ p ∈ common localProtocols remoteProtocols, newer n.protocol p) ∧
      (∀ s, s ∈ n.semantics ↔ s ∈ uniqueStrings localSemantics ∧ s ∈ uniqueStrings remoteSemantics) ∧
      ∀ s ∈ uniqueStrings requiredSemantics, s ∈ n.semantics := by
  have hmissing : ∀ l here there : List JsString, (l.filter fun s =>
      !here.contains s || !there.contains s) = l.filter fun s => !there.contains s || !here.contains s :=
    fun l here there => List.filter_congr fun s _ => Bool.or_comm _ _
  have hunique : ∀ l, (uniqueStrings l).Nodup := fun _ => nodup_setOf _
  have hsorted : (common localProtocols remoteProtocols).Pairwise newer :=
    List.pairwise_insertionSort newer _
  simp only [negotiateProtocol]
  rw [← common, ← common, common_comm remoteProtocols, hmissing _ (uniqueStrings remoteSemantics),
    shared_comm (hunique localSemantics) (hunique remoteSemantics)]
  cases hcommon : common localProtocols remoteProtocols with
  | nil => simp
  | cons selected rest =>
    refine ⟨rfl, ?_⟩
    dsimp only
    split
    · next hsome =>
      refine ⟨iff_of_false (fun h => by cases h.choose_spec) fun h => hsome ?_, fun n hn => by cases hn⟩
      exact missing_eq_nil.mpr h.2
    · next hnone =>
      have hboth := missing_eq_nil.mp (not_not.mp hnone)
      refine ⟨iff_of_true ⟨_, rfl⟩ ⟨⟨selected, List.mem_cons_self⟩, hboth⟩, fun n hn => ?_⟩
      cases hn
      refine ⟨List.mem_cons_self, fun p hp => ?_, fun s => mem_shared.trans and_comm,
        fun s hs => mem_shared.mpr (hboth s hs).symm⟩
      rw [hcommon] at hsorted
      rcases List.mem_cons.mp hp with rfl | hp
      · exact le_refl _
      · exact List.rel_of_pairwise_cons hsorted hp

/-- A string that is not blank. -/
def advertised : Json → Bool
  | .string s => !blank s
  | _ => false

/-- What a HELLO advertises under this key; nothing, if it has no such member. -/
def advertisement (hello : Json) (key : String) (absent : List JsString) :
    Except Refusal (List JsString) :=
  match hello.get (js key) with
  | none => .ok absent
  | some (.array l) =>
    if l.all advertised then .ok (l.filterMap stringOf)
    else .error (.mismatch (js "invalid_advertisement") none)
  | some _ => .error (.mismatch (js "invalid_advertisement") none)

def decideSessionProtocol (o : Options) (hello : Json) : Except Refusal Negotiated := do
  let protocols ← advertisement hello "protocols" baseline
  let semantics ← advertisement hello "semantics" []
  let required ← advertisement hello "requiredSemantics" []
  negotiateProtocol o.localProtocols protocols o.localSemantics semantics
    (setOf (required ++ o.localRequiredSemantics))

/-! ### The checks of a HELLO -/

/-- What `verifySessionHello` returns of a HELLO that it accepts. -/
structure Verified where
  nodeId : JsString
  publicKey : Json
  replayKey : JsString
  negotiated : Negotiated

variable (P : Platform) (o : Options)

/-- `Date.parse(hello.issuedAt)`, if it is a time. -/
def timestamp (hello : Json) : Option ℤ :=
  ((hello.get (js "issuedAt")).bind stringOf).bind P.parseDate

def validateTimestamp (hello : Json) (now : ℤ) : Bool :=
  (timestamp P hello).any fun time => |now - time| ≤ o.maxSkewMs

/-- A value as a part of a template literal. -/
def printed (v : Option Json) : Except Refusal JsString :=
  match v.elim (some (js "undefined")) stringOf with
  | some s => .ok s
  | none => .error (.reason (js "Cannot convert object to primitive value"))

/-- The HELLO without its key and its signature. -/
def unsignedBody : Json → Json
  | .object m => .object (m.filter fun p => p.1 ≠ js "publicKey" ∧ p.1 ≠ js "signature")
  | v => v

def thrown {α : Type} : Except JsString α → Except Refusal α
  | .ok a => .ok a
  | .error message => .error (.reason message)

structure Authentic where
  nodeId : JsString
  publicKey : Json
  replayKey : JsString

/-- The checks of `verifySessionHello` that come before the replay cache is asked. -/
def authenticate (hello : Json) (now : ℤ) : Except Refusal Authentic := do
  if ¬(isString (hello.get (js "protocol")) peerSessionProtocol ∧
      isString (hello.get (js "kind")) (js "HELLO")) then
    throw (.reason (js "session_hello_protocol"))
  if ["nodeId", "publicKey", "signature", "nonce", "issuedAt"].any
      fun key => falsy (hello.get (js key)) then
    throw (.reason (js "session_hello_missing"))
  let publicKey := (hello.get (js "publicKey")).getD .null
  let nodeId ← thrown (P.nodeIdFromPublicKey publicKey)
  if ¬isString (hello.get (js "nodeId")) nodeId then
    throw (.reason (js "session_hello_key_mismatch"))
  let _ ← printed (hello.get (js "issuedAt"))
  if ¬validateTimestamp P o hello now then throw (.reason (js "session_hello_stale"))
  let signed ← thrown (P.verifyValue (unsignedBody hello)
    ((hello.get (js "signature")).getD .null) publicKey)
  if ¬signed then throw (.reason (js "session_hello_signature"))
  let nonce ← printed (hello.get (js "nonce"))
  return ⟨nodeId, publicKey, nodeId ++ js ":" ++ nonce⟩

/-- All the checks, with what the replay cache has. -/
def examine (replayCache : List JsString) (hello : Json) (now : ℤ) : Except Refusal Verified := do
  let peer ← authenticate P o hello now
  if peer.replayKey ∈ replayCache then throw (.reason (js "session_hello_replay"))
  let negotiated ← decideSessionProtocol o hello
  return ⟨peer.nodeId, peer.publicKey, peer.replayKey, negotiated⟩

/-- `SessionReplayCache.add`: a set in the order in which its members came. -/
def add (entries : List JsString) (value : JsString) : List JsString :=
  let entries := if value ∈ entries then entries else entries ++ [value]
  entries.drop (entries.length - o.maxEntries)

def verifySessionHello (replayCache : List JsString) (hello : Json) (now : ℤ) :
    Except Refusal Verified × List JsString :=
  match examine P o replayCache hello now with
  | .ok v => (.ok v, add o replayCache v.replayKey)
  | .error refusal => (.error refusal, replayCache)

/-! ### A responder -/

structure Accepted where
  hello : Json
  replayKey : JsString
  at_ : ℤ

/-- The replay cache, and a log of what was accepted. -/
structure Responder where
  replayCache : List JsString
  accepted : List Accepted

def start : Responder := ⟨[], []⟩

def receive (s : Responder) (e : Json × ℤ) : Responder :=
  match verifySessionHello P o s.replayCache e.1 e.2 with
  | (.ok v, cache) => ⟨cache, s.accepted ++ [⟨e.1, v.replayKey, e.2⟩]⟩
  | (.error _, cache) => { s with replayCache := cache }

def run (es : List (Json × ℤ)) : Responder := es.foldl (receive P o) start

/-- The same peer and the same nonce. -/
def Same (h h' : Json) : Prop :=
  h.get (js "nodeId") = h'.get (js "nodeId") ∧ h.get (js "nonce") = h'.get (js "nonce")

/-- No HELLO is accepted while one of the same peer and nonce that was accepted before is fresh. -/
def Once (s : Responder) : Prop :=
  s.accepted.Pairwise fun a b => Same a.hello b.hello → validateTimestamp P o a.hello b.at_ = false

/-- A HELLO that is authentic, negotiable and not remembered comes when the cache has room, or when
    the HELLO behind its oldest entry is fresh no more. -/
def Fits (s : Responder) (e : Json × ℤ) : Prop :=
  ∀ peer, authenticate P o e.1 e.2 = .ok peer → (decideSessionProtocol o e.1).isOk = true →
    peer.replayKey ∉ s.replayCache → s.replayCache.length < o.maxEntries ∨
      ∃ oldest, s.replayCache.head? = some oldest ∧
        ∀ a ∈ s.accepted, a.replayKey = oldest → validateTimestamp P o a.hello e.2 = false

variable {P o} {s : Responder} {hello h h' : Json} {now clock : ℤ} {peer : Authentic}
  {verified : Verified} {cache : List JsString}

/-! ### What an accepted HELLO says -/

theorem thrown_ok {α : Type} {x : Except JsString α} {a : α} : thrown x = .ok a ↔ x = .ok a := by
  cases x <;> simp [thrown]

theorem authenticate_ok (hok : authenticate P o hello now = .ok peer) :
    validateTimestamp P o hello now = true ∧ ∃ nonce, hello.get (js "nodeId") = some (.string peer.nodeId) ∧
      printed (hello.get (js "nonce")) = .ok nonce ∧
      peer.replayKey = peer.nodeId ++ js ":" ++ nonce := by
  simp only [authenticate, bind_ok, guard_ok, pure_ok, thrown_ok] at hok
  obtain ⟨-, -, nodeId, -, hnode, -, -, htime, -, -, -, nonce, hnonce, rfl⟩ := hok
  exact ⟨by simpa using htime, nonce, of_isString (by simpa using hnode), hnonce, rfl⟩

/-- The same peer and nonce have the same key. -/
theorem replayKey_of_same {now' : ℤ} {peer' : Authentic} (hok : authenticate P o h now = .ok peer)
    (hok' : authenticate P o h' now' = .ok peer') (hsame : Same h h') :
    peer.replayKey = peer'.replayKey := by
  obtain ⟨-, nonce, hnode, hnonce, hkey⟩ := authenticate_ok hok
  obtain ⟨-, nonce', hnode', hnonce', hkey'⟩ := authenticate_ok hok'
  rw [hsame.1, hnode'] at hnode
  rw [hsame.2, hnonce'] at hnonce
  rw [hkey, hkey', Except.ok.inj hnonce, Json.string.inj (Option.some.inj hnode)]

theorem examine_ok : examine P o cache hello now = .ok verified ↔
    ∃ peer negotiated, authenticate P o hello now = .ok peer ∧ peer.replayKey ∉ cache ∧
      decideSessionProtocol o hello = .ok negotiated ∧
      verified = ⟨peer.nodeId, peer.publicKey, peer.replayKey, negotiated⟩ := by
  simp only [examine, bind_ok, guard_ok, pure_ok]
  constructor
  · rintro ⟨peer, hpeer, hnew, negotiated, hnegotiated, rfl⟩
    exact ⟨peer, negotiated, hpeer, hnew, hnegotiated, rfl⟩
  · rintro ⟨peer, negotiated, hpeer, hnew, hnegotiated, rfl⟩
    exact ⟨peer, hpeer, hnew, negotiated, hnegotiated, rfl⟩

/-- Once a HELLO that was accepted is fresh no more, it stays so. -/
theorem stale_later {at_ : ℤ} (haccepted : validateTimestamp P o hello at_ = true) (hat : at_ ≤ now)
    (hstale : validateTimestamp P o hello now = false) (hnow : now ≤ clock) :
    validateTimestamp P o hello clock = false := by
  unfold validateTimestamp at haccepted hstale ⊢
  cases htime : timestamp P hello with
  | none => rfl
  | some time =>
    rw [htime] at haccepted hstale
    rw [Option.any_some] at haccepted hstale ⊢
    rw [decide_eq_true_eq, abs_le] at haccepted
    rw [decide_eq_false_iff_not, abs_le] at hstale ⊢
    omega

/-! ### What is remembered -/

theorem length_add (max : cache.length ≤ o.maxEntries) (value : JsString) :
    (add o cache value).length ≤ o.maxEntries := by
  simp only [add, List.length_drop]
  omega

/-- With room nothing is forgotten, and otherwise only the oldest entry is. -/
theorem mem_add {value key : JsString} (hnew : value ∉ cache) (hsize : cache.length ≤ o.maxEntries)
    (hmax : cache ≠ [] ∨ 0 < o.maxEntries) (hkey : key ∈ cache ∨ key = value) :
    key ∈ add o cache value ∨ cache.length = o.maxEntries ∧ cache.head? = some key := by
  have hadd : add o cache value = (cache ++ [value]).drop (cache.length + 1 - o.maxEntries) := by
    simp [add, hnew]
  rcases Nat.lt_or_ge cache.length o.maxEntries with hlt | hge
  · left
    rw [hadd, Nat.sub_eq_zero_of_le hlt]
    simpa using hkey
  · have hone : cache.length + 1 - o.maxEntries = 1 := by omega
    rw [hadd, hone]
    cases cache with
    | nil => exact absurd (hmax.resolve_left fun hne => hne rfl) (Nat.not_lt.mpr hge)
    | cons oldest rest =>
      rcases hkey with hkey | rfl
      · rcases List.mem_cons.mp hkey with rfl | hkey
        · exact .inr ⟨le_antisymm hsize hge, rfl⟩
        · exact .inl (List.mem_append_left _ hkey)
      · exact .inl (by simp)

/-! ### Runs -/

/-- What was accepted and is fresh at this time is remembered. -/
structure Remembered (P : Platform) (o : Options) (s : Responder) (clock : ℤ) : Prop where
  size : s.replayCache.length ≤ o.maxEntries
  authentic : ∀ a ∈ s.accepted, a.at_ ≤ clock ∧
    ∃ peer, authenticate P o a.hello a.at_ = .ok peer ∧ peer.replayKey = a.replayKey
  fresh : ∀ a ∈ s.accepted,
    a.replayKey ∈ s.replayCache ∨ validateTimestamp P o a.hello clock = false

theorem Remembered.later (h : Remembered P o s now) (hnow : now ≤ clock) :
    Remembered P o s clock := by
  refine ⟨h.size, fun a ha => ?_, fun a ha => ?_⟩
  · obtain ⟨hat, hpeer⟩ := h.authentic a ha
    exact ⟨hat.trans hnow, hpeer⟩
  · obtain ⟨hat, peer, hpeer, -⟩ := h.authentic a ha
    exact (h.fresh a ha).imp_right fun hstale =>
      stale_later (authenticate_ok hpeer).1 hat hstale hnow

/-- A HELLO comes. -/
theorem Remembered.receive (h : Remembered P o s now) (honce : Once P o s) (hello : Json)
    (hfits : Fits P o s (hello, now)) :
    Remembered P o (receive P o s (hello, now)) now ∧ Once P o (receive P o s (hello, now)) := by
  cases hexamine : examine P o s.replayCache hello now with
  | error refusal =>
    have hsame : Session.receive P o s (hello, now) = s := by
      simp [Session.receive, verifySessionHello, hexamine]
    rw [hsame]
    exact ⟨h, honce⟩
  | ok verified =>
    obtain ⟨peer, negotiated, hpeer, hnew, hnegotiated, rfl⟩ := examine_ok.mp hexamine
    have hnext : Session.receive P o s (hello, now) = ⟨add o s.replayCache peer.replayKey,
        s.accepted ++ [⟨hello, peer.replayKey, now⟩]⟩ := by
      simp [Session.receive, verifySessionHello, hexamine]
    have hroom := hfits peer hpeer (by simp [hnegotiated, Except.isOk, Except.toBool]) hnew
    have hmax : s.replayCache ≠ [] ∨ 0 < o.maxEntries := by
      rcases hroom with hlt | ⟨oldest, holdest, -⟩
      · exact .inr (Nat.zero_lt_of_lt hlt)
      · exact .inl fun hnil => by simp [hnil] at holdest
    -- only the oldest entry is forgotten, and what it stands for is fresh no more
    have hkept : ∀ a ∈ s.accepted, a.replayKey ∈ s.replayCache →
        a.replayKey ∈ add o s.replayCache peer.replayKey ∨
          validateTimestamp P o a.hello now = false := by
      intro a ha hkey
      refine (mem_add hnew h.size hmax (.inl hkey)).imp_right fun ⟨hfull, hhead⟩ => ?_
      rcases hroom with hlt | ⟨oldest, holdest, hstale⟩
      · omega
      · exact hstale a ha (Option.some.inj (hhead.symm.trans holdest))
    rw [hnext]
    refine ⟨⟨length_add h.size _, fun a ha => ?_, fun a ha => ?_⟩, ?_⟩
    · rcases List.mem_append.mp ha with ha | ha
      · exact h.authentic a ha
      · obtain rfl := List.mem_singleton.mp ha
        exact ⟨le_rfl, peer, hpeer, rfl⟩
    · rcases List.mem_append.mp ha with ha | ha
      · rcases h.fresh a ha with hkey | hstale
        · exact hkept a ha hkey
        · exact .inr hstale
      · obtain rfl := List.mem_singleton.mp ha
        refine (mem_add hnew h.size hmax (.inr rfl)).imp_right fun ⟨hfull, hhead⟩ => ?_
        exact absurd (List.mem_of_mem_head? hhead) hnew
    · rw [Once, List.pairwise_append]
      refine ⟨honce, List.pairwise_singleton _ _, fun a ha b hb hsame => ?_⟩
      obtain rfl := List.mem_singleton.mp hb
      obtain ⟨-, peer', hpeer', hkey⟩ := h.authentic a ha
      rcases h.fresh a ha with hmem | hstale
      · refine absurd ?_ hnew
        rwa [← replayKey_of_same hpeer' hpeer hsame, hkey]
      · exact hstale

theorem remembered_run (es : List (Json × ℤ)) (hclock : (es.map Prod.snd).Pairwise (· ≤ ·))
    (hfits : Runs.Along (receive P o) (Fits P o) start es) :
    (∀ clock, (∀ e ∈ es, e.2 ≤ clock) → Remembered P o (run P o es) clock) ∧
      Once P o (run P o es) := by
  induction es using List.reverseRecOn with
  | nil =>
    exact ⟨fun clock _ => ⟨Nat.zero_le _, by simp [run, start], by simp [run, start]⟩, .nil⟩
  | append_singleton es e ih =>
    rw [List.map_append, List.pairwise_append] at hclock
    obtain ⟨hfits, hlast, -⟩ := Runs.Along.append.mp hfits
    obtain ⟨hremembered, honce⟩ := ih hclock.1 hfits
    have hpast : ∀ d ∈ es, d.2 ≤ e.2 := fun d hd =>
      hclock.2.2 d.2 (List.mem_map_of_mem hd) e.2 List.mem_cons_self
    obtain ⟨hnext, honce⟩ := (hremembered e.2 hpast).receive honce e.1 hlast
    rw [run, List.foldl_append]
    exact ⟨fun clock hend => hnext.later (hend e (by simp)), honce⟩

/-- NO REPLAY: with a clock that does not go back, and no HELLO that comes while the cache is full of
    entries whose oldest one is still fresh, no HELLO is accepted again while it is fresh. -/
theorem accepted_once (P : Platform) (o : Options) (es : List (Json × ℤ))
    (hclock : (es.map Prod.snd).Pairwise (· ≤ ·))
    (hfits : Runs.Along (receive P o) (Fits P o) start es) : Once P o (run P o es) :=
  (remembered_run es hclock hfits).2

/-! ### More HELLOs than the cache holds -/

/-- A platform on which every signature `s` is valid. -/
def plain : Platform where
  parseDate s :=
    if s = js "1970-01-01T00:00:00.000Z" then some 0
    else if s = js "1970-01-01T00:01:00.000Z" then some 60000 else none
  nodeIdFromPublicKey
    | .string k => .ok (js "truyn:node:" ++ k)
    | _ => .error (js "invalid key")
  verifyValue _ signature _ := .ok (isString (some signature) (js "s"))

/-- The defaults but for the size of the cache, with `TRUYN/1` and no semantics. -/
def holding (max : ℕ) : Options := ⟨30000, max, baseline, [], []⟩

def nonceOf (n : ℕ) : JsString := 110 :: numeral n

/-- A HELLO of the peer with the key `k`. -/
def helloAt (issuedAt : String) (n : ℕ) : Json := .object
  [(js "protocol", .string peerSessionProtocol), (js "kind", .string (js "HELLO")),
    (js "nodeId", .string (js "truyn:node:k")), (js "transport", .string (js "quic")),
    (js "endpoints", .array []), (js "nonce", .string (nonceOf n)),
    (js "issuedAt", .string (js issuedAt)), (js "publicKey", .string (js "k")),
    (js "signature", .string (js "s"))]

def helloOf (n : ℕ) : Json := helloAt "1970-01-01T00:00:00.000Z" n

def keyOf (n : ℕ) : JsString := js "truyn:node:k" ++ js ":" ++ nonceOf n

theorem authenticate_helloOf (max n : ℕ) :
    authenticate plain (holding max) (helloOf n) 0 = .ok ⟨js "truyn:node:k", .string (js "k"), keyOf n⟩ :=
  rfl

theorem decide_helloOf (max n : ℕ) :
    decideSessionProtocol (holding max) (helloOf n) = .ok ⟨js "TRUYN/1", []⟩ := rfl

theorem keyOf_injective : Function.Injective keyOf := fun _ _ h =>
  numeral_injective (List.cons.inj (List.append_cancel_left h)).2

/-- A HELLO whose key is not in the cache is accepted. -/
theorem receive_helloOf (max : ℕ) (s : Responder) (n : ℕ) (hnew : keyOf n ∉ s.replayCache) :
    receive plain (holding max) s (helloOf n, 0) =
      ⟨add (holding max) s.replayCache (keyOf n), s.accepted ++ [⟨helloOf n, keyOf n, 0⟩]⟩ := by
  have hexamine := examine_ok.mpr
    ⟨_, _, authenticate_helloOf max n, hnew, decide_helloOf max n, rfl⟩
  simp [receive, verifySessionHello, hexamine]

/-- Many HELLOs at once: the cache holds the last of them. -/
theorem run_helloOf (max n : ℕ) :
    run plain (holding max) ((List.range n).map fun i => (helloOf i, 0)) =
      ⟨((List.range n).map keyOf).drop (n - max),
        (List.range n).map fun i => ⟨helloOf i, keyOf i, 0⟩⟩ := by
  induction n with
  | zero => simp [run, start]
  | succ n ih =>
    have hnew : keyOf n ∉ ((List.range n).map keyOf).drop (n - max) := by
      intro hmem
      obtain ⟨i, hi, heq⟩ := List.mem_map.mp (List.mem_of_mem_drop hmem)
      rw [keyOf_injective heq] at hi
      exact absurd (List.mem_range.mp hi) (lt_irrefl n)
    rw [run, List.range_succ, List.map_append, List.foldl_append, ← run, ih, List.map_singleton,
      List.foldl_cons, List.foldl_nil, receive_helloOf max _ _ hnew, List.map_append, List.map_append,
      List.map_singleton, List.map_singleton, Responder.mk.injEq]
    refine ⟨?_, rfl⟩
    simp only [add, hnew, if_false, holding, List.length_append, List.length_drop, List.length_map,
      List.length_range, List.length_singleton]
    rw [← List.drop_append_of_le_length (by simp), List.drop_drop]
    congr 1
    omega

/-- One HELLO more than the cache holds, of one peer, and the first one again, all at the time for
    which they are signed. -/
def flooded (max : ℕ) : List (Json × ℤ) :=
  (List.range (max + 1)).map (fun i => (helloOf i, 0)) ++ [(helloOf 0, 0)]

/-- The first HELLO is forgotten with the last one, and accepted again. -/
theorem not_once_flooded (max : ℕ) : ¬Once plain (holding max) (run plain (holding max) (flooded max)) := by
  intro honce
  have hnew : keyOf 0 ∉ ((List.range (max + 1)).map keyOf).drop (max + 1 - max) := by
    rw [Nat.add_sub_cancel_left, ← List.map_drop, List.mem_map]
    rintro ⟨i, hi, heq⟩
    have hzero : i = 0 := keyOf_injective heq
    rw [hzero, List.range_eq_range', List.drop_range', List.mem_range'] at hi
    omega
  rw [flooded, run, List.foldl_append, ← run, run_helloOf, List.foldl_cons, List.foldl_nil,
    receive_helloOf max _ _ hnew, Once, List.pairwise_append] at honce
  have hfresh := honce.2.2 ⟨helloOf 0, keyOf 0, 0⟩ (List.mem_map.mpr ⟨0, by simp, rfl⟩) _
    List.mem_cons_self ⟨rfl, rfl⟩
  exact Bool.noConfusion (hfresh : true = false)

/-- The cache of a responder holds 10000 entries. -/
theorem accepted_again : ((flooded 10000).map Prod.snd).Pairwise (· ≤ ·) ∧
    ¬Once plain (holding 10000) (run plain (holding 10000) (flooded 10000)) := by
  refine ⟨?_, not_once_flooded 10000⟩
  rw [List.pairwise_map]
  refine List.pairwise_of_forall_mem_list fun a ha b hb => ?_
  have hzero : ∀ e ∈ flooded 10000, e.2 = 0 := by
    intro e he
    rcases List.mem_append.mp he with he | he
    · obtain ⟨i, -, rfl⟩ := List.mem_map.mp he
      rfl
    · obtain rfl := List.mem_singleton.mp he
      rfl
  rw [hzero a ha, hzero b hb]

/-- A HELLO that is signed a minute later. -/
def laterHello : Json := helloAt "1970-01-01T00:01:00.000Z" 1

/-- The cache holds one HELLO, which is stale when the second one takes its place; that one is then a
    replay. -/
theorem accepted_once_evicting :
    let s := run plain (holding 1) [(helloOf 0, 0), (laterHello, 60000), (laterHello, 60000)]
    s.replayCache = [keyOf 1] ∧ s.accepted.length = 2 ∧ Once plain (holding 1) s := by
  have hfirst : receive plain (holding 1) start (helloOf 0, 0) =
      ⟨[keyOf 0], [⟨helloOf 0, keyOf 0, 0⟩]⟩ := by rfl
  have hsecond : receive plain (holding 1) ⟨[keyOf 0], [⟨helloOf 0, keyOf 0, 0⟩]⟩ (laterHello, 60000) =
      ⟨[keyOf 1], [⟨helloOf 0, keyOf 0, 0⟩, ⟨laterHello, keyOf 1, 60000⟩]⟩ := by rfl
  have hauthentic : authenticate plain (holding 1) laterHello 60000 =
      .ok ⟨js "truyn:node:k", .string (js "k"), keyOf 1⟩ := by rfl
  have hthird : receive plain (holding 1) ⟨[keyOf 1], [⟨helloOf 0, keyOf 0, 0⟩,
      ⟨laterHello, keyOf 1, 60000⟩]⟩ (laterHello, 60000) =
      ⟨[keyOf 1], [⟨helloOf 0, keyOf 0, 0⟩, ⟨laterHello, keyOf 1, 60000⟩]⟩ := by rfl
  have honce := accepted_once plain (holding 1)
    [(helloOf 0, 0), (laterHello, 60000), (laterHello, 60000)] (by simp)
    ⟨fun _ _ _ _ => .inl (by decide), fun _ _ _ _ => ?_, fun peer hpeer _ hnew => ?_, trivial⟩
  · refine ⟨?_, ?_, honce⟩
    · simp only [run, List.foldl_cons, List.foldl_nil, hfirst, hsecond, hthird]
    · simp only [run, List.foldl_cons, List.foldl_nil, hfirst, hsecond, hthird]
      rfl
  · rw [hfirst]
    refine .inr ⟨keyOf 0, rfl, fun a ha _ => ?_⟩
    obtain rfl := List.mem_singleton.mp ha
    rfl
  · rw [hfirst, hsecond] at hnew
    cases hauthentic.symm.trans hpeer
    exact absurd List.mem_cons_self hnew

end Truyn.Session
