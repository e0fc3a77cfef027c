import Truyn.Protocol.Compact
import Truyn.Schemes.Maps

/-! protocol:strict | which frames the verifier of compact frames accepts

    With an ideal signature a frame that is accepted says what a call of `createCompactFrame` by the
    owner of the key said. It need not be the frame that the call made: the code, the signature and
    further members are read more freely than they are written, and for some values the verifier
    throws (`strict_iff`). -/

namespace Truyn.Protocol

variable {P : Crypto} {calls : List Call} {call : Call} {frame payload id : Json}
  {publicKeyPem code text : JsString} {type : CompactType} {allowedTypes : List CompactType}
  {signature : List UInt8}

/-- The call signed this text, with this signature. -/
structure Signed (P : Crypto) (call : Call) (text : JsString) (signature : List UInt8) : Prop where
  complete : call.complete = true
  text_eq : (compactSigningValue call.type (.string call.id) call.payload).canonicalize = .ok text
  signature_eq : P.sign call.privateKeyPem text = some signature

/-- An ideal signature: what verifies for a text of a frame is what a call by the owner signed. -/
def Ideal (P : Crypto) (calls : List Call) : Prop :=
  ∀ publicKeyPem type id payload text signature,
    (compactSigningValue type id payload).canonicalize = .ok text →
      (P.verify publicKeyPem text signature = true ↔
        ∃ call ∈ calls, P.publicKey call.privateKeyPem = publicKeyPem ∧ Signed P call text signature)

/-- The frame is what a call by the owner made, and makes for this payload. -/
def IsOutput (P : Crypto) (calls : List Call) (frame payload : Json) (publicKeyPem : JsString) :
    Prop :=
  ∃ call ∈ calls, P.publicKey call.privateKeyPem = publicKeyPem ∧ ∃ l m,
    createCompactFrame P call = .ok (.object m) ∧
    createCompactFrame P { call with payload := payload } = .ok (.object m) ∧
    frame = .object l ∧ l.Perm m

/-- There is a verdict, and only an output is accepted. -/
def Strict (P : Crypto) (calls : List Call) (allowedTypes : List CompactType)
    (frame payload : Json) (publicKeyPem : JsString) : Prop :=
  (∃ verdict, verifyCompactFrame P frame payload publicKeyPem allowedTypes = .ok verdict) ∧
    ∀ type, verifyCompactFrame P frame payload publicKeyPem allowedTypes = .ok (.accepted type) →
      IsOutput P calls frame payload publicKeyPem

/-- The members are the three of a frame, spelled as they are written. -/
def Spelled (frame : Json) (type : CompactType) (signature : List UInt8) : Prop :=
  ∃ l, frame = .object l ∧ l.Perm (members type (idOf frame) signature)

/-- Where the last check is reached, its arguments can be signed and verified; and what the owner
    signed is spelled as it is written. -/
structure Regular (P : Crypto) (calls : List Call) (frame payload : Json) (publicKeyPem : JsString)
    (type : CompactType) (signature : List UInt8) : Prop where
  id_wellFormed : (idOf frame).wellFormed = true
  payload_wellFormed : payload.wellFormed = true
  key : P.accepts publicKeyPem = true
  spelled : ∀ call ∈ calls, ∀ text, P.publicKey call.privateKeyPem = publicKeyPem →
    (compactSigningValue type (idOf frame) payload).canonicalize = .ok text →
    Signed P call text signature → Spelled frame type signature

theorem createCompactFrame_ok {made : Json} : createCompactFrame P call = .ok made ↔
    ∃ text signature, Signed P call text signature ∧
      made = .object (members call.type (.string call.id) signature) := by
  unfold createCompactFrame
  constructor
  · intro h
    split at h
    · cases h
    · next hcomplete =>
      obtain ⟨text, htext, h⟩ := Checks.bind_ok.mp h
      split at h
      · cases h
      · next signature hsign =>
        exact ⟨text, signature, ⟨by simpa using hcomplete, htext, hsign⟩, (Except.ok.inj h).symm⟩
  · rintro ⟨text, signature, hsigned, rfl⟩
    rw [if_neg (by simp [hsigned.complete]), Checks.bind_ok]
    exact ⟨text, hsigned.text_eq, by simp only [hsigned.signature_eq]⟩

/-! ### What the text tells -/

theorem normalize_eq_string {v : Json} {s : JsString} (h : v.normalize = .string s) :
    v = .string s := by
  cases v <;> simp_all [Json.normalize]

/-- The owner's text is of the same code and id, and of a payload with the same canonical text. -/
theorem Signed.same (hsigned : Signed P call text signature)
    (htext : (compactSigningValue type id payload).canonicalize = .ok text) :
    call.type = type ∧ id = .string call.id ∧
      (compactSigningValue call.type (.string call.id) payload).canonicalize = .ok text := by
  obtain ⟨hid, -, heq⟩ := canonicalize_signingValue.mp hsigned.text_eq
  obtain ⟨-, hpayload, heq'⟩ := canonicalize_signingValue.mp htext
  have hvalue := Json.text_injective (heq'.trans heq.symm)
  simp only [Json.array.injEq, List.cons.injEq, Json.string.injEq, and_true] at hvalue
  obtain ⟨hcode, hnormal, hsame⟩ := hvalue
  have htype : call.type = type := code_injective hcode.symm
  have hstring : id = .string call.id := by
    refine normalize_eq_string (hnormal.trans ?_)
    simp [Json.normalize]
  refine ⟨htype, hstring, canonicalize_signingValue.mpr ⟨hid, hpayload, ?_⟩⟩
  rw [← heq', htype, hstring]

/-! ### The spelling of an output -/

theorem get_of_perm {l : List (JsString × Json)} {key : JsString} {v : Json}
    (h : l.Perm (members type id signature)) (hmem : (key, v) ∈ members type id signature) :
    (Json.object l).get key = some v := by
  have hkeys : (l.map Prod.fst).Nodup := (h.map Prod.fst).nodup_iff.mpr (by
    simp only [members, List.map_cons, List.map_nil]
    decide)
  exact Maps.get_of_mem hkeys (h.mem_iff.mpr hmem)

/-- What has the members of a frame is read as it is written. -/
theorem read_of_perm {l : List (JsString × Json)} (hid : frame = .object l)
    (h : l.Perm (members type id signature)) :
    (frame.get (js "t")).bind stringOf = some type.code ∧ idOf frame = id ∧
      signatureBytes P frame = some signature := by
  subst hid
  refine ⟨?_, ?_, ?_⟩
  · rw [get_of_perm h (v := .string type.code) (by simp [members])]
    rfl
  · rw [idOf, get_of_perm h (v := id) (by simp [members])]
    rfl
  · rw [signatureBytes, get_of_perm h (v := .string (base64url signature)) (by simp [members])]
    simp [fromBase64_base64url]

/-- An output is spelled as it is written. -/
theorem spelled_of_output (hcode : (frame.get (js "t")).bind stringOf = some code)
    (htype : typeOf code = some type) (hbytes : signatureBytes P frame = some signature)
    (h : IsOutput P calls frame payload publicKeyPem) : Spelled frame type signature := by
  obtain ⟨call, -, -, l, m, hmade, -, hframe, hperm⟩ := h
  obtain ⟨text, sig, -, hm⟩ := createCompactFrame_ok.mp hmade
  obtain rfl := Json.object.inj hm
  obtain ⟨hcode', hid, hbytes'⟩ := read_of_perm (P := P) hframe hperm
  obtain rfl : call.type.code = code := Option.some.inj (hcode'.symm.trans hcode)
  obtain rfl : call.type = type := Option.some.inj ((typeOf_code _).symm.trans htype)
  obtain rfl : sig = signature := Option.some.inj (hbytes'.symm.trans hbytes)
  exact ⟨l, hframe, hid ▸ hperm⟩

/-- What the owner signed, spelled as it is written, is an output. -/
theorem output_of_spelled (hpayload : falsy (some payload) = false) (hcall : call ∈ calls)
    (hkey : P.publicKey call.privateKeyPem = publicKeyPem) (hsigned : Signed P call text signature)
    (htext : (compactSigningValue type (idOf frame) payload).canonicalize = .ok text)
    (h : Spelled frame type signature) : IsOutput P calls frame payload publicKeyPem := by
  obtain ⟨rfl, hid, hsame⟩ := hsigned.same htext
  obtain ⟨l, hframe, hperm⟩ := h
  rw [hid] at hperm
  have hcomplete : Call.complete { call with payload := payload } = true := by
    have hold := of_decide_eq_true hsigned.complete
    exact decide_eq_true ⟨hold.1, hpayload, hold.2.2⟩
  have hthis : Signed P { call with payload := payload } text signature :=
    ⟨hcomplete, hsame, hsigned.signature_eq⟩
  exact ⟨call, hcall, hkey, l, _, createCompactFrame_ok.mpr ⟨text, signature, hsigned, rfl⟩,
    createCompactFrame_ok.mpr ⟨text, signature, hthis, rfl⟩, hframe, hperm⟩

/-! ### When the verifier is strict -/

/-- Where the last check is reached, it is strict for what is regular. -/
theorem strict_reached (hideal : Ideal P calls)
    (hcomplete : complete frame payload publicKeyPem = true)
    (hcode : (frame.get (js "t")).bind stringOf = some code) (htype : typeOf code = some type)
    (hallowed : type ∈ allowedTypes) (hbytes : signatureBytes P frame = some signature)
    (hlength : signature.length = 64) :
    Strict P calls allowedTypes frame payload publicKeyPem ↔
      Regular P calls frame payload publicKeyPem type signature := by
  have hverify : verifyCompactFrame P frame payload publicKeyPem allowedTypes =
      verifySignature P type frame payload publicKeyPem signature := by
    rw [verify_complete hcomplete hcode, htype, verifyTyped_reached hallowed hbytes hlength]
  have hpayload : falsy (some payload) = false := by
    simp only [complete, Bool.and_eq_true, Bool.not_eq_true'] at hcomplete
    exact hcomplete.1.2
  unfold Strict
  rw [hverify, verifySignature_ok]
  constructor
  · rintro ⟨⟨hid, hwell, hkey⟩, hstrict⟩
    refine ⟨hid, hwell, hkey, fun call hcall text howner htext hsigned => ?_⟩
    have hok := (hideal publicKeyPem type (idOf frame) payload text signature htext).mpr
      ⟨call, hcall, howner, hsigned⟩
    exact spelled_of_output hcode htype hbytes
      (hstrict type (verifySignature_accepted.mpr ⟨rfl, hkey, text, htext, hok⟩))
  · intro h
    refine ⟨⟨h.id_wellFormed, h.payload_wellFormed, h.key⟩, fun found hfound => ?_⟩
    obtain ⟨-, -, text, htext, hok⟩ := verifySignature_accepted.mp hfound
    obtain ⟨call, hcall, howner, hsigned⟩ :=
      (hideal publicKeyPem type (idOf frame) payload text signature htext).mp hok
    exact output_of_spelled hpayload hcall howner hsigned htext
      (h.spelled call hcall text howner htext hsigned)

/-- The verifier is strict where a field is missing; and else where the code can be converted and,
    if its type is allowed and the signature has 64 bytes, the arguments of the last check are
    regular. -/
theorem strict_iff (hideal : Ideal P calls) :
    Strict P calls allowedTypes frame payload publicKeyPem ↔
      (complete frame payload publicKeyPem = true →
        ∃ code, (frame.get (js "t")).bind stringOf = some code ∧
          ∀ type ∈ allowedTypes, typeOf code = some type →
            ∀ signature, signatureBytes P frame = some signature → signature.length = 64 →
              Regular P calls frame payload publicKeyPem type signature) := by
  cases hcomplete : complete frame payload publicKeyPem with
  | false =>
    have hrefused : verifyCompactFrame P frame payload publicKeyPem allowedTypes =
        .ok (.refused "missing_required_field") := verify_incomplete hcomplete
    constructor
    · intro _ h
      cases h
    · intro _
      refine ⟨⟨_, hrefused⟩, fun type h => ?_⟩
      cases Except.ok.inj (hrefused.symm.trans h)
  | true =>
    simp only [forall_const]
    cases hcode : (frame.get (js "t")).bind stringOf with
    | none =>
      constructor
      · rintro ⟨⟨verdict, h⟩, -⟩
        cases (verify_unreadable hcomplete hcode).symm.trans h
      · rintro ⟨code, h, -⟩
        cases h
    | some code =>
      by_cases hreach : ∀ type ∈ allowedTypes, typeOf code = some type →
          ∀ signature, signatureBytes P frame = some signature → signature.length ≠ 64
      · have htyped : ∃ reason, verifyTyped P (typeOf code) frame payload publicKeyPem
            allowedTypes = .ok (.refused reason) := verifyTyped_refused hreach
        obtain ⟨reason, hrefused⟩ := htyped
        rw [← verify_complete hcomplete hcode] at hrefused
        constructor
        · intro _
          exact ⟨code, rfl, fun type ha ht σ hσ hlength => absurd hlength (hreach type ha ht σ hσ)⟩
        · intro _
          refine ⟨⟨_, hrefused⟩, fun type h => ?_⟩
          cases Except.ok.inj (hrefused.symm.trans h)
      · push Not at hreach
        obtain ⟨type, hallowed, htype, signature, hbytes, hlength⟩ := hreach
        rw [strict_reached hideal hcomplete hcode htype hallowed hbytes hlength]
        constructor
        · intro h
          refine ⟨code, rfl, fun type' _ htype' σ hσ _ => ?_⟩
          obtain rfl : type = type' := Option.some.inj (htype.symm.trans htype')
          obtain rfl : signature = σ := Option.some.inj (hbytes.symm.trans hσ)
          exact h
        · rintro ⟨code', hcode', h⟩
          cases hcode'
          exact h type hallowed htype signature hbytes hlength

/-! ### One call -/

def sevens : List UInt8 := List.replicate 64 7

/-- The call of an owner who makes one frame. -/
def need : Call := ⟨.NEED, .array [], js "private", js "id"⟩

def needText : JsString := (Json.array [.string (js "N"), .string (js "id"), .array []]).text

def oneCall : Crypto where
  publicKey _ := js "public"
  sign _ _ := some sevens
  accepts key := key = js "public"
  verify key text signature := key = js "public" ∧ text = needText ∧ signature = sevens
  bufferFrom _ := none

/-- The frame that the call makes, with its signature spelled as `s`. -/
def frameWith (s : JsString) : Json :=
  .object [(js "t", .string (js "N")), (js "i", .string (js "id")), (js "s", .string s)]

theorem need_canonical :
    (compactSigningValue need.type (.string need.id) need.payload).canonicalize = .ok needText := by
  rfl

theorem ideal_oneCall : Ideal oneCall [need] := by
  intro key type id payload text signature htext
  simp only [oneCall, decide_eq_true_eq, List.mem_singleton, exists_eq_left]
  constructor
  · rintro ⟨rfl, rfl, rfl⟩
    exact ⟨rfl, by decide, need_canonical, rfl⟩
  · rintro ⟨rfl, hsigned⟩
    exact ⟨rfl, (Except.ok.inj (need_canonical.symm.trans hsigned.text_eq)).symm,
      (Option.some.inj hsigned.signature_eq).symm⟩

theorem strict_iff_made :
    Strict oneCall [need] compactTypes (frameWith (base64url sevens)) (.array []) (js "public") := by
  refine (strict_iff ideal_oneCall).mpr fun _ => ⟨js "N", rfl, ?_⟩
  rintro type - htype signature hbytes -
  obtain rfl : CompactType.NEED = type := Option.some.inj htype
  obtain rfl : sevens = signature := by
    rw [← fromBase64_base64url sevens]
    exact Option.some.inj hbytes
  exact ⟨rfl, rfl, rfl, fun _ _ _ _ _ _ => ⟨_, rfl, List.Perm.refl _⟩⟩

theorem signed_need : Signed oneCall need needText sevens := ⟨by decide, need_canonical, rfl⟩

theorem reached_oneCall {s : JsString} (hs : fromBase64 s = sevens)
    (hcomplete : complete (frameWith s) payload (js "public") = true) :
    Strict oneCall [need] compactTypes (frameWith s) payload (js "public") ↔
      Regular oneCall [need] (frameWith s) payload (js "public") .NEED sevens :=
  strict_reached ideal_oneCall hcomplete rfl (by decide) (by decide) (congrArg some hs) rfl

/-- A signature with padding is accepted, and a payload with half a surrogate pair throws. -/
theorem padded_accepted : Ideal oneCall [need] ∧
    ¬Strict oneCall [need] compactTypes (frameWith (base64url sevens ++ js "==")) (.array [])
      (js "public") ∧
    ¬Strict oneCall [need] compactTypes (frameWith (base64url sevens))
      (.array [.string [0xD800]]) (js "public") := by
  refine ⟨ideal_oneCall, ?_, ?_⟩
  · rw [reached_oneCall (by decide) (by decide)]
    intro h
    obtain ⟨l, hframe, hperm⟩ :=
      h.spelled need (List.mem_singleton_self _) needText rfl need_canonical signed_need
    obtain rfl := Json.object.inj hframe
    have hmem := hperm.mem_iff (a := (js "s", .string (base64url sevens ++ js "==")))
    simp [members] at hmem
    rcases hmem with ⟨hkey, -⟩ | ⟨hkey, -⟩ | hpadding
    · exact absurd hkey (by decide)
    · exact absurd hkey (by decide)
    · exact absurd hpadding (by decide)
  · rw [reached_oneCall (fromBase64_base64url sevens) (by decide)]
    intro h
    exact absurd h.payload_wellFormed (by decide)

end Truyn.Protocol
