import Truyn.Witness.Payload
import Truyn.Schemes.Maps

/-! witness:lookup | the entries that a lookup gives, each signed and all of one outcome

    The entries come from outside, in any order. `Vouches` is what is wanted of one, and all must be of
    one outcome. The clock is read for each entry, so that the order does not matter only where no
    reading changes what is late (`Steady`). -/

namespace Truyn.Witness
open Checks

structure Crypto (Key : Type) where
  createPublicKey : JsString → Option Key
  isEd25519 : Key → Bool
  verify : Key → List UInt8 → List UInt8 → Bool
  sha256 : List UInt8 → JsString

variable {Key : Type} (H : Host) (C : Crypto Key)

/-! ### The verifier -/

variable (keys : List (JsString × Key))

def strictEq : Option Json → Option Json → Bool
  | none, none => true
  | some .null, some .null => true
  | some (.bool a), some (.bool b) => a = b
  | some (.number n), some (.number m) => n.text = m.text
  | some (.string s), some (.string t) => s = t
  | _, _ => false

/-- `Date.parse(value)`; `none` is `NaN`. -/
def dateOf (v : Option Json) : Except String (Option ℤ) :=
  match v.elim (some (js "undefined")) stringOf with
  | some s => .ok (H.parseDate s)
  | none => .error "TypeError"

/-- The id and the key, if it is trusted. -/
def keyOf (keyId : Option Json) : Option (JsString × Key) :=
  match keyId with
  | some (.string id) => (Maps.get keys id).map fun key => (id, key)
  | _ => none

/-- The signature, if it is written as it is encoded. -/
def signatureOf (signature : Option Json) : Option (List UInt8) :=
  match signature with
  | some (.string s) =>
    if (fromBase64 s).length = 64 ∧ base64 (fromBase64 s) = s then some (fromBase64 s) else none
  | _ => none

structure Found where
  payload : Json
  keyId : JsString
  witnessDigest : JsString

def payloadOf (entry : Json) : Option Json := member (some entry) "payload"

/-- What is checked of an entry but its time. -/
def checkSigned (correlationId scopeDigest : Option Json) (entry : Json) : Except String Found := do
  if !fields (some entry) ["keyId", "payload", "signature"] then throw "g5_witness_untrusted"
  match keyOf keys (member (some entry) "keyId") with
  | none => throw "g5_witness_untrusted"
  | some (id, key) =>
    if !text (member (some entry) "signature") 88 then throw "g5_witness_untrusted"
    match signatureOf (member (some entry) "signature") with
    | none => throw "g5_witness_untrusted"
    | some signature =>
      let payload := payloadOf entry
      let bytes ← witnessSigningBytes H payload
      if !C.verify key bytes signature then throw "g5_witness_signature_invalid"
      if !strictEq (member payload "correlationId") correlationId ||
          !strictEq (member payload "scopeDigest") scopeDigest then
        throw "g5_witness_binding_mismatch"
      return ⟨payload.getD .null, id, C.sha256 (bytes ++ signature)⟩

/-- A comparison with `NaN` is false. -/
def checkEntry (correlationId scopeDigest : Option Json) (claimed now : ℤ) (entry : Json) :
    Except String Found := do
  let found ← checkSigned H C keys correlationId scopeDigest entry
  let observed ← dateOf H (member (payloadOf entry) "observedAt")
  if observed.any fun t => t < claimed - 30000 || now + 30000 < t then throw "g5_witness_time_invalid"
  return found

/-- What all entries must agree on. -/
def outcome (payload : Option Json) : List Json :=
  valuesOf payload ["responseId", "model"] ++ valuesOf (member payload "usage") usageFields ++
    valuesOf payload ["outputDigest"]

/-- `clock i` is what `now()` gives for entry `i`. -/
def verifyEntries (correlationId scopeDigest : Option Json) (claimed : ℤ) (clock : ℕ → ℤ) :
    ℕ → Option Found → Option JsString → List Json → Except String (Option Found)
  | _, selected, _, [] => .ok selected
  | i, selected, immutable, entry :: entries => do
    let found ← checkEntry H C keys correlationId scopeDigest claimed (clock i) entry
    let current := (Json.array (outcome (payloadOf entry))).text
    if immutable.any fun t => t ≠ current then throw "g5_multiple_provider_outcomes"
    verifyEntries correlationId scopeDigest claimed clock (i + 1) (selected.or (some found))
      (some current) entries

def verifyAll (correlationId scopeDigest : Option Json) (claimed : ℤ) (clock : ℕ → ℤ) :
    Json → Except String Found
  | .array entries =>
    if 16 < entries.length then .error "g5_witness_query_invalid"
    else if entries.length = 0 then .error "g5_effect_remains_unknown"
    else do
      let selected ← verifyEntries H C keys correlationId scopeDigest claimed clock 0 none none entries
      match selected with
      | some found => pure found
      | none => throw "undefined"
  | _ => .error "g5_witness_query_invalid"

/-- `answer` is what the lookup gave, or the error of the lookup, the deadline or an abort. -/
def lookupAndVerify (correlationId scopeDigest claimedAt : Option Json) (answer : Except String Json)
    (clock : ℕ → ℤ) : Except String Found := do
  if !digest correlationId || !digest scopeDigest then throw "g5_witness_binding_invalid"
  let date ← dateOf H claimedAt
  match date with
  | none => throw "g5_witness_binding_invalid"
  | some claimed =>
    let value ← answer
    verifyAll H C keys correlationId scopeDigest claimed clock value

/-! ### One entry -/

/-- The same response, model, tokens and output. -/
structure SameOutcome (p q : Option Json) : Prop where
  response : ∀ key ∈ ["responseId", "model", "outputDigest"], member p key = member q key
  usage : ∀ key ∈ usageFields, member (member p "usage") key = member (member q "usage") key

/-- What is wanted of an entry: a trusted signature, for this request, inside the time window. -/
structure Vouches (correlationId scopeDigest : Option Json) (claimed now : ℤ) (entry : Json) :
    Prop where
  signed : ∃ id key signature bytes, Maps.get keys id = some key ∧
    member (some entry) "keyId" = some (.string id) ∧
    member (some entry) "signature" = some (.string (base64 signature)) ∧
    signature.length = 64 ∧ witnessSigningBytes H (payloadOf entry) = .ok bytes ∧
    C.verify key bytes signature = true
  correlation : member (payloadOf entry) "correlationId" = correlationId
  scope : member (payloadOf entry) "scopeDigest" = scopeDigest
  timely : ∃ t, member (payloadOf entry) "observedAt" = some (.string (toISOString t)) ∧
    H.parseDate (toISOString t) = some t ∧ claimed - 30000 ≤ t ∧ t ≤ now + 30000

variable {H} {C} {keys} {correlationId scopeDigest : Option Json} {claimed now : ℤ} {entry : Json}
  {found : Found}

theorem of_strictEq_digest {v w : Option Json} (h : strictEq v w = true) (hw : digest w = true) :
    v = w := by
  obtain ⟨t, rfl⟩ := of_digest hw
  unfold strictEq at h
  split at h <;> simp_all

theorem observed_of_bytes {payload : Option Json} {bytes : List UInt8}
    (h : witnessSigningBytes H payload = .ok bytes) : ∃ t,
      member payload "observedAt" = some (.string (toISOString t)) ∧
        H.parseDate (toISOString t) = some t := by
  unfold witnessSigningBytes at h
  obtain ⟨⟨⟩, hcheck, -⟩ := bind_ok.mp h
  unfold checkPayload at hcheck
  obtain ⟨-, hcheck⟩ := guard_ok.mp hcheck
  obtain ⟨_, _, hcheck⟩ := bind_ok.mp hcheck
  obtain ⟨-, hcheck⟩ := guard_ok.mp hcheck
  obtain ⟨⟨⟩, hobserved, -⟩ := bind_ok.mp hcheck
  exact checkObservedAt_ok hobserved

theorem of_keyOf {v : Option Json} {id : JsString} {key : Key} (h : keyOf keys v = some (id, key)) :
    v = some (.string id) ∧ Maps.get keys id = some key := by
  unfold keyOf at h
  split at h
  · obtain ⟨k, hk, heq⟩ := Option.map_eq_some_iff.mp h
    cases heq
    exact ⟨rfl, hk⟩
  · cases h

theorem of_signatureOf {v : Option Json} {signature : List UInt8} (h : signatureOf v = some signature) :
    v = some (.string (base64 signature)) ∧ signature.length = 64 := by
  unfold signatureOf at h
  split at h
  · next s =>
    split at h
    · next hs =>
      cases h
      exact ⟨by rw [hs.2], hs.1⟩
    · cases h
  · cases h

theorem checkSigned_ok (h : checkSigned H C keys correlationId scopeDigest entry = .ok found)
    (hc : digest correlationId = true) (hs : digest scopeDigest = true) :
    (∃ id key signature bytes, Maps.get keys id = some key ∧
      member (some entry) "keyId" = some (.string id) ∧
      member (some entry) "signature" = some (.string (base64 signature)) ∧
      signature.length = 64 ∧ witnessSigningBytes H (payloadOf entry) = .ok bytes ∧
      C.verify key bytes signature = true) ∧
    member (payloadOf entry) "correlationId" = correlationId ∧
    member (payloadOf entry) "scopeDigest" = scopeDigest ∧
    payloadOf entry = some found.payload := by
  unfold checkSigned at h
  obtain ⟨-, h⟩ := guard_ok.mp h
  cases hkey : keyOf keys (member (some entry) "keyId") with
  | none => simp [hkey, throw, throwThe, MonadExceptOf.throw] at h
  | some trusted =>
    obtain ⟨id, key⟩ := trusted
    simp only [hkey] at h
    obtain ⟨-, h⟩ := guard_ok.mp h
    cases hsignature : signatureOf (member (some entry) "signature") with
    | none => simp [hsignature, throw, throwThe, MonadExceptOf.throw] at h
    | some signature =>
      simp only [hsignature] at h
      obtain ⟨bytes, hbytes, h⟩ := bind_ok.mp h
      obtain ⟨hverify, h⟩ := guard_ok.mp h
      obtain ⟨hbound, h⟩ := guard_ok.mp h
      obtain rfl := pure_ok.mp h
      simp only [Bool.or_eq_true, not_or, Bool.not_eq_true', Bool.not_eq_false] at hverify hbound
      obtain ⟨hid, htrusted⟩ := of_keyOf hkey
      obtain ⟨hwritten, hlength⟩ := of_signatureOf hsignature
      refine ⟨⟨id, key, signature, bytes, htrusted, hid, hwritten, hlength, hbytes, hverify⟩,
        of_strictEq_digest hbound.1 hc, of_strictEq_digest hbound.2 hs, ?_⟩
      obtain ⟨t, ht, -⟩ := observed_of_bytes hbytes
      cases hpayload : payloadOf entry with
      | none => simp [hpayload, member] at ht
      | some payload => rfl
/-- The clock is asked only whether the entry is late. -/
def Late (H : Host) (now : ℤ) (entry : Json) : Prop :=
  ∃ t, dateOf H (member (payloadOf entry) "observedAt") = .ok (some t) ∧ now + 30000 < t

theorem checkEntry_ok : checkEntry H C keys correlationId scopeDigest claimed now entry = .ok found ↔
    checkSigned H C keys correlationId scopeDigest entry = .ok found ∧
    ∃ observed, dateOf H (member (payloadOf entry) "observedAt") = .ok observed ∧
      ∀ t ∈ observed, claimed - 30000 ≤ t ∧ t ≤ now + 30000 := by
  unfold checkEntry
  simp only [bind_ok, guard_ok, pure_ok]
  constructor
  · rintro ⟨f, hsigned, observed, hdate, htime, rfl⟩
    refine ⟨hsigned, observed, hdate, fun t ht => ?_⟩
    obtain rfl := ht
    simpa [not_or] using htime
  · rintro ⟨hsigned, observed, hdate, htime⟩
    refine ⟨found, hsigned, observed, hdate, ?_, rfl⟩
    cases observed with
    | none => simp
    | some t =>
      have ht := htime t rfl
      simpa [not_or] using ht

theorem checkEntry_late {now' : ℤ} (hlate : Late H now entry ↔ Late H now' entry)
    (h : checkEntry H C keys correlationId scopeDigest claimed now entry = .ok found) :
    checkEntry H C keys correlationId scopeDigest claimed now' entry = .ok found := by
  rw [checkEntry_ok] at h ⊢
  obtain ⟨hsigned, observed, hdate, htime⟩ := h
  refine ⟨hsigned, observed, hdate, fun t ht => ⟨(htime t ht).1, ?_⟩⟩
  obtain rfl := ht
  by_contra hnot
  obtain ⟨t', hdate', ht'⟩ := hlate.mpr ⟨t, hdate, lt_of_not_ge hnot⟩
  rw [hdate] at hdate'
  obtain rfl : t = t' := by simpa using hdate'
  exact absurd (htime t rfl).2 (not_le_of_gt ht')

theorem checkEntry_vouches
    (h : checkEntry H C keys correlationId scopeDigest claimed now entry = .ok found)
    (hc : digest correlationId = true) (hs : digest scopeDigest = true) :
    Vouches H C keys correlationId scopeDigest claimed now entry ∧
      payloadOf entry = some found.payload := by
  obtain ⟨hsigned, observed, hdate, htime⟩ := checkEntry_ok.mp h
  obtain ⟨htrusted, hcorrelation, hscope, hpayload⟩ := checkSigned_ok hsigned hc hs
  obtain ⟨id, key, signature, bytes, -, -, -, -, hbytes, -⟩ := id htrusted
  obtain ⟨t, ht, hparse⟩ := observed_of_bytes hbytes
  refine ⟨⟨htrusted, hcorrelation, hscope, t, ht, hparse, htime t ?_⟩, hpayload⟩
  rw [ht] at hdate
  have hobserved : observed = H.parseDate (toISOString t) := by
    simpa [dateOf, stringOf] using hdate.symm
  rw [hobserved, hparse]
  rfl

/-! ### All entries -/

def currentOf (entry : Json) : JsString := (Json.array (outcome (payloadOf entry))).text

variable {clock : ℕ → ℤ} {i : ℕ} {selected : Option Found} {immutable : Option JsString}
  {entries : List Json}

/-- By induction on the entries: each passes at its reading of the clock, and all have one text. -/
theorem verifyEntries_ok_iff :
    (∃ r, verifyEntries H C keys correlationId scopeDigest claimed clock i selected immutable
      entries = .ok r) ↔
    (∀ k e, entries[k]? = some e → ∃ f,
      checkEntry H C keys correlationId scopeDigest claimed (clock (i + k)) e = .ok f) ∧
    (∀ t ∈ immutable, ∀ e ∈ entries, currentOf e = t) ∧
    ∀ e ∈ entries, ∀ e' ∈ entries, currentOf e = currentOf e' := by
  induction entries generalizing i selected immutable with
  | nil => simp [verifyEntries]
  | cons entry entries ih =>
    simp only [verifyEntries, bind_ok, guard_ok]
    constructor
    · rintro ⟨r, f, hf, himmutable, hrest⟩
      obtain ⟨hchecks, hsame, -⟩ := ih.mp ⟨r, hrest⟩
      have hall : ∀ e ∈ entry :: entries, currentOf e = currentOf entry := by
        intro e he
        rcases List.mem_cons.mp he with rfl | he
        · rfl
        · exact hsame _ rfl e he
      refine ⟨fun k e he => ?_, fun t ht e he => ?_, fun e he e' he' => ?_⟩
      · cases k with
        | zero =>
          obtain rfl : entry = e := by simpa using he
          exact ⟨f, hf⟩
        | succ k =>
          obtain ⟨f', hf'⟩ := hchecks k e (by simpa using he)
          exact ⟨f', by rwa [Nat.add_right_comm] at hf'⟩
      · obtain rfl := ht
        rw [hall e he]
        by_contra hne
        exact himmutable (by simpa [currentOf] using fun h => hne h.symm)
      · rw [hall e he, hall e' he']
    · rintro ⟨hchecks, hsame, hall⟩
      obtain ⟨f, hf⟩ := hchecks 0 entry rfl
      have hnext : ∃ r, verifyEntries H C keys correlationId scopeDigest claimed clock (i + 1)
          (selected.or (some f)) (some (currentOf entry)) entries = .ok r := by
        refine ih.mpr ⟨fun k e he => ?_, fun t ht e he => ?_, fun e he e' he' =>
          hall e (List.mem_cons_of_mem _ he) e' (List.mem_cons_of_mem _ he')⟩
        · obtain ⟨f', hf'⟩ := hchecks (k + 1) e (by simpa using he)
          exact ⟨f', by rwa [Nat.add_right_comm]⟩
        · obtain rfl : currentOf entry = t := by simpa using ht
          exact hall e (List.mem_cons_of_mem _ he) entry List.mem_cons_self
      obtain ⟨r, hr⟩ := hnext
      refine ⟨r, f, hf, ?_, hr⟩
      cases immutable with
      | none => simp
      | some t => simpa [currentOf] using (hsame t rfl entry List.mem_cons_self).symm

/-- What is given is what was selected, or the first entry. -/
theorem verifyEntries_selected {r : Option Found}
    (h : verifyEntries H C keys correlationId scopeDigest claimed clock i selected immutable
      entries = .ok r) : (∀ f, selected = some f → r = some f) ∧
    (selected = none → ∀ e es, entries = e :: es → ∃ f,
      checkEntry H C keys correlationId scopeDigest claimed (clock i) e = .ok f ∧ r = some f) := by
  induction entries generalizing i selected immutable with
  | nil =>
    cases h
    exact ⟨fun _ hf => hf, fun _ e es hnil => by cases hnil⟩
  | cons entry entries ih =>
    simp only [verifyEntries, bind_ok, guard_ok] at h
    obtain ⟨f, hf, -, hrest⟩ := h
    obtain ⟨hkept, -⟩ := ih hrest
    constructor
    · rintro g rfl
      exact hkept g rfl
    · rintro rfl e es hcons
      obtain ⟨rfl, rfl⟩ := List.cons.inj hcons
      exact ⟨f, hf, hkept f rfl⟩

/-! ### The lookup -/

/-- Of two payloads with signed bytes. -/
theorem sameOutcome_of {p q : Option Json} {bytes bytes' : List UInt8}
    (hp : witnessSigningBytes H p = .ok bytes) (hq : witnessSigningBytes H q = .ok bytes')
    (h : outcome p = outcome q) : SameOutcome p q := by
  unfold witnessSigningBytes at hp hq
  obtain ⟨⟨⟩, hcheck, hp⟩ := bind_ok.mp hp
  obtain ⟨⟨⟩, hcheck', hq⟩ := bind_ok.mp hq
  obtain ⟨tokens, husage, -⟩ := bind_ok.mp hp
  obtain ⟨tokens', husage', -⟩ := bind_ok.mp hq
  have hacc := accepted_of_check hcheck
  have hacc' := accepted_of_check hcheck'
  obtain ⟨hfront, houtput⟩ := List.append_inj h (by simp [valuesOf])
  obtain ⟨hresponse, htokens⟩ := List.append_inj hfront (by simp [valuesOf])
  constructor
  · intro key hkey
    have hin : key ∈ head ++ tail := by
      revert key
      decide
    rw [List.mem_cons, List.mem_cons, List.mem_singleton] at hkey
    have hwhich : key ∈ ["responseId", "model"] ∨ key ∈ ["outputDigest"] := by simp; tauto
    rcases hwhich with hkey | hkey
    · exact member_eq_of_values hresponse hkey (hacc.isSome hin) (hacc'.isSome hin)
    · exact member_eq_of_values houtput hkey (hacc.isSome hin) (hacc'.isSome hin)
  · intro key hkey
    exact member_eq_of_values htokens hkey (checkUsage_isSome husage hkey)
      (checkUsage_isSome husage' hkey)

theorem sameOutcome_of_current {e e' : Json} {now' : ℤ} {found' : Found}
    (h : checkEntry H C keys correlationId scopeDigest claimed now e = .ok found)
    (h' : checkEntry H C keys correlationId scopeDigest claimed now' e' = .ok found')
    (hc : digest correlationId = true) (hs : digest scopeDigest = true)
    (hcurrent : currentOf e = currentOf e') : SameOutcome (payloadOf e) (payloadOf e') := by
  obtain ⟨id, key, signature, bytes, -, -, -, -, hbytes, -⟩ := (checkEntry_vouches h hc hs).1.signed
  obtain ⟨id, key, signature, bytes', -, -, -, -, hbytes', -⟩ :=
    (checkEntry_vouches h' hc hs).1.signed
  exact sameOutcome_of hbytes hbytes' (Json.array.inj (Json.text_injective hcurrent))

variable {claimedAt : Option Json} {answer : Except String Json}

theorem verifyAll_ok {value : Json} :
    verifyAll H C keys correlationId scopeDigest claimed clock value = .ok found ↔
    ∃ entries, value = .array entries ∧ entries.length ≤ 16 ∧ entries ≠ [] ∧
      verifyEntries H C keys correlationId scopeDigest claimed clock 0 none none entries =
        .ok (some found) := by
  cases value with
  | array entries =>
    simp only [verifyAll, Json.array.injEq, exists_eq_left']
    by_cases hmost : 16 < entries.length
    · simp [hmost, not_le_of_gt hmost]
    · by_cases hnil : entries = []
      · simp [hnil]
      · have hlength : ¬entries.length = 0 := by simpa using hnil
        rw [if_neg hmost, if_neg hlength, bind_ok]
        constructor
        · rintro ⟨r, hr, h⟩
          cases r with
          | none => simp [throw, throwThe, MonadExceptOf.throw] at h
          | some f =>
            obtain rfl := pure_ok.mp h
            exact ⟨not_lt.mp hmost, hnil, hr⟩
        · rintro ⟨-, -, hr⟩
          exact ⟨some found, hr, rfl⟩
  | _ => simp [verifyAll]

theorem lookupAndVerify_ok :
    lookupAndVerify H C keys correlationId scopeDigest claimedAt answer clock = .ok found ↔
    (digest correlationId = true ∧ digest scopeDigest = true) ∧
    ∃ claimed entries, dateOf H claimedAt = .ok (some claimed) ∧ answer = .ok (.array entries) ∧
      entries.length ≤ 16 ∧ entries ≠ [] ∧ verifyEntries H C keys correlationId scopeDigest claimed
        clock 0 none none entries = .ok (some found) := by
  unfold lookupAndVerify
  rw [guard_ok, bind_ok]
  simp only [Bool.or_eq_true, not_or, Bool.not_eq_true', Bool.not_eq_false]
  refine and_congr Iff.rfl ⟨?_, ?_⟩
  · rintro ⟨date, hdate, h⟩
    cases date with
    | none => simp [throw, throwThe, MonadExceptOf.throw] at h
    | some claimed =>
      obtain ⟨value, rfl, h⟩ := bind_ok.mp h
      obtain ⟨entries, rfl, hrest⟩ := verifyAll_ok.mp h
      exact ⟨claimed, entries, hdate, rfl, hrest⟩
  · rintro ⟨claimed, entries, hdate, rfl, hrest⟩
    exact ⟨some claimed, hdate, bind_ok.mpr ⟨_, rfl, verifyAll_ok.mpr ⟨entries, rfl, hrest⟩⟩⟩

/-- No reading of the clock changes which entries are late. -/
def Steady (H : Host) (clock : ℕ → ℤ) (entries : List Json) : Prop :=
  ∀ e ∈ entries, ∀ i < entries.length, ∀ j < entries.length,
    Late H (clock i) e → Late H (clock j) e

/-- Where no entry becomes late meanwhile, another order is verified, too. -/
theorem verifyEntries_perm {entries' : List Json} {r : Option Found} (hsteady : Steady H clock entries)
    (hp : entries.Perm entries')
    (h : verifyEntries H C keys correlationId scopeDigest claimed clock 0 none none entries = .ok r) :
    ∃ r, verifyEntries H C keys correlationId scopeDigest claimed clock 0 none none entries' =
      .ok r := by
  obtain ⟨hchecks, -, hall⟩ := verifyEntries_ok_iff.mp ⟨r, h⟩
  refine verifyEntries_ok_iff.mpr ⟨fun k e he => ?_, fun t ht => (by cases ht), fun e he e' he' =>
    hall e (hp.mem_iff.mpr he) e' (hp.mem_iff.mpr he')⟩
  have hmem : e ∈ entries := hp.mem_iff.mpr (List.mem_of_getElem? he)
  obtain ⟨j, hj⟩ := List.mem_iff_getElem?.mp hmem
  obtain ⟨f, hf⟩ := hchecks j e hj
  have hjlt : j < entries.length := (List.getElem_of_getElem? hj).1
  have hklt : k < entries.length := hp.length_eq ▸ (List.getElem_of_getElem? he).1
  simp only [Nat.zero_add] at hf ⊢
  exact ⟨f, checkEntry_late ⟨hsteady e hmem j hjlt k hklt, hsteady e hmem k hklt j hjlt⟩ hf⟩

/-- What is returned was vouched for by every entry, at least one; another order of the entries gives
    the same outcome, if the clock makes none late; and the signed bytes tell the payload. -/
theorem all_vouch (H : Host) (C : Crypto Key) (keys : List (JsString × Key))
    (correlationId scopeDigest claimedAt : Option Json) (clock : ℕ → ℤ) :
    (∀ answer found,
      lookupAndVerify H C keys correlationId scopeDigest claimedAt answer clock = .ok found →
      ∃ entries claimed, answer = .ok (.array entries) ∧ entries ≠ [] ∧
        dateOf H claimedAt = .ok (some claimed) ∧ ∀ k e, entries[k]? = some e →
          Vouches H C keys correlationId scopeDigest claimed (clock k) e ∧
          SameOutcome (payloadOf e) (some found.payload)) ∧
    (∀ entries entries' : List Json, entries.Perm entries' → Steady H clock entries → ∀ found,
      lookupAndVerify H C keys correlationId scopeDigest claimedAt (.ok (.array entries)) clock =
        .ok found →
      ∃ found', lookupAndVerify H C keys correlationId scopeDigest claimedAt (.ok (.array entries'))
        clock = .ok found' ∧ SameOutcome (some found.payload) (some found'.payload)) ∧
    ∀ p q bytes, witnessSigningBytes H p = .ok bytes → witnessSigningBytes H q = .ok bytes →
      Same p q := by
  refine ⟨fun answer found h => ?_, fun entries entries' hp hsteady found h => ?_, fun p q bytes hp hq =>
    same_of_bytes hp hq⟩
  · obtain ⟨⟨hc, hs⟩, claimed, entries, hdate, hanswer, -, hne, hr⟩ := lookupAndVerify_ok.mp h
    obtain ⟨hchecks, -, hall⟩ := verifyEntries_ok_iff.mp ⟨_, hr⟩
    refine ⟨entries, claimed, hanswer, hne, hdate, fun k e he => ?_⟩
    obtain ⟨f, hf⟩ := hchecks k e he
    obtain ⟨first, rest, hfirst⟩ := List.exists_cons_of_ne_nil hne
    obtain ⟨g, hg, hgiven⟩ := (verifyEntries_selected hr).2 rfl first rest hfirst
    cases hgiven
    rw [Nat.zero_add] at hf
    refine ⟨(checkEntry_vouches hf hc hs).1, ?_⟩
    rw [← (checkEntry_vouches hg hc hs).2]
    exact sameOutcome_of_current hf hg hc hs
      (hall e (List.mem_of_getElem? he) first (hfirst ▸ List.mem_cons_self))
  · obtain ⟨⟨hc, hs⟩, claimed, l, hdate, hanswer, hmost, hne, hr⟩ := lookupAndVerify_ok.mp h
    obtain rfl : entries = l := Json.array.inj (Except.ok.inj hanswer)
    obtain ⟨r', hr'⟩ := verifyEntries_perm hsteady hp hr
    have hne' : entries' ≠ [] := fun hnil => hne (hnil ▸ hp).eq_nil
    obtain ⟨-, -, hall⟩ := verifyEntries_ok_iff.mp ⟨_, hr⟩
    obtain ⟨first, rest, hfirst⟩ := List.exists_cons_of_ne_nil hne
    obtain ⟨first', rest', hfirst'⟩ := List.exists_cons_of_ne_nil hne'
    obtain ⟨g, hg, hgiven⟩ := (verifyEntries_selected hr).2 rfl first rest hfirst
    obtain ⟨g', hg', rfl⟩ := (verifyEntries_selected hr').2 rfl first' rest' hfirst'
    cases hgiven
    refine ⟨g', lookupAndVerify_ok.mpr ⟨⟨hc, hs⟩, claimed, entries', hdate, rfl,
      hp.length_eq ▸ hmost, hne', hr'⟩, ?_⟩
    rw [← (checkEntry_vouches hg hc hs).2, ← (checkEntry_vouches hg' hc hs).2]
    exact sameOutcome_of_current hg hg' hc hs (hall first (hfirst ▸ List.mem_cons_self) first'
      (hp.mem_iff.mpr (hfirst' ▸ List.mem_cons_self)))

/-! ### An entry on the limit -/

/-- The dates of two instants. -/
def twoDates : Host where
  parseDate := fun s =>
    if s = toISOString 0 then some 0 else if s = toISOString 30001 then some 30001 else none

def anySignature : Crypto Unit := ⟨fun _ => some (), fun _ => true, fun _ _ _ => true, fun _ => []⟩

def sixtyFour : Json := .string (List.replicate 64 48)

/-- An entry of one outcome, observed then. -/
def entryAt (t : ℤ) : Json :=
  .object [(js "keyId", .string (js "k")),
    (js "payload", .object [(js "schema", .string schema),
      (js "provider", .string (js "azure-openai")), (js "correlationId", sixtyFour),
      (js "scopeDigest", sixtyFour), (js "responseId", .string (js "resp_1")),
      (js "model", .string (js "m")), (js "usage", .object [(js "input_tokens", .number (.ofNat 3)),
        (js "output_tokens", .number (.ofNat 4)), (js "total_tokens", .number (.ofNat 7))]),
      (js "outputDigest", sixtyFour), (js "observedAt", .string (toISOString t)),
      (js "recordId", .string (js "r")), (js "exportDigest", sixtyFour)]),
    (js "signature", .string (base64 (List.replicate 64 0)))]

def lookupTwo (clock : ℕ → ℤ) (entries : List Json) : Except String Found :=
  lookupAndVerify twoDates anySignature [(js "k", ())] (some sixtyFour) (some sixtyFour)
    (some (.string (toISOString 0))) (.ok (.array entries)) clock

/-- The clock goes on by one between the entries. -/
def ticking : ℕ → ℤ
  | 0 => 0
  | _ + 1 => 1

/-- The later entry is inside the window at the second reading only. -/
theorem order_decides :
    [entryAt 0, entryAt 30001].Perm [entryAt 30001, entryAt 0] ∧
    (lookupTwo ticking [entryAt 0, entryAt 30001]).toBool = true ∧
    (lookupTwo ticking [entryAt 30001, entryAt 0]).toBool = false :=
  ⟨List.Perm.swap _ _ _, by rfl, by rfl⟩

end Truyn.Witness
