import Truyn.Js.Buffers
import Truyn.Js.Dates
import Truyn.Schemes.Checks

/-! witness:payload | the statement of an independent witness, and the bytes that are signed for it

    Values may have any type: `fields` compares joined key names, and a response id is tested as the
    text that it has. The bytes are of one JSON array, so that two payloads with the same bytes say the
    same (`same_of_bytes`). -/

namespace Truyn.Witness
open Checks

/-- What the host gives; `parseDate` is `Date.parse` of a string. -/
structure Host where
  parseDate : JsString → Option ℤ

/-! ### Values of any type -/

def member (v : Option Json) (key : String) : Option Json := v.bind (Json.get (js key))

/-- `String(value || '')`. -/
def textOr (v : Option Json) : Except String JsString :=
  match falsy v, v with
  | false, some v =>
    match stringOf v with
    | some s => .ok s
    | none => .error "TypeError"
  | _, _ => .ok []

def isHex (u : UInt16) : Bool := (97 ≤ u ∧ u ≤ 102) ∨ (48 ≤ u ∧ u ≤ 57)

def digest (v : Option Json) : Bool :=
  match v with
  | some (.string s) => s.length = 64 ∧ s.all isHex
  | _ => false

def text (v : Option Json) (max : ℕ) : Bool :=
  match v with
  | some (.string s) => 0 < s.length ∧ s.length ≤ max
  | _ => false

/-- The keys, sorted and joined. -/
def barred (keys : List JsString) : JsString :=
  (js "|").intercalate (keys.insertionSort fun a b => unitsLe a b = true)

def fields (v : Option Json) (expected : List String) : Bool :=
  match v with
  | some (.object m) => barred (m.map Prod.fst) = barred (expected.map js)
  | _ => false

/-- `[a-zA-Z0-9_-]` -/
def isWord (u : UInt16) : Bool :=
  (97 ≤ u ∧ u ≤ 122) ∨ (65 ≤ u ∧ u ≤ 90) ∨ (48 ≤ u ∧ u ≤ 57) ∨ u = 95 ∨ u = 45

/-- `/^resp_[a-zA-Z0-9_-]{1,200}$/` -/
def isResponseId (s : JsString) : Bool :=
  s.take 5 = js "resp_" ∧ 1 ≤ (s.drop 5).length ∧ (s.drop 5).length ≤ 200 ∧ (s.drop 5).all isWord

/-- A string of a form: `0` stands for a digit, and every other code unit for itself. -/
def hasForm : JsString → JsString → Bool
  | [], [] => true
  | f :: form, u :: s => (if f = 48 then decide (48 ≤ u ∧ u ≤ 57) else u = f) && hasForm form s
  | _, _ => false

/-- A safe integer that is not negative. -/
def natural (v : Option Json) : Option ℕ :=
  match v with
  | some (.number n) =>
    let k := numeralValue n.text
    if n.text = numeral k ∧ k < 2 ^ 53 then some k else none
  | _ => none

/-! ### The payload -/

def schema : JsString := js "truyn.g5.independent-response-witness/v1"

def domain : JsString := js "TRUYN/G5/INDEPENDENT-RESPONSE-WITNESS/1\n"

def payloadFields : List String :=
  ["schema", "provider", "correlationId", "scopeDigest", "responseId", "model", "usage",
    "outputDigest", "observedAt", "recordId", "exportDigest"]

def usageFields : List String := ["input_tokens", "output_tokens", "total_tokens"]

/-- The fields that are written with their values, in this order; the tokens stand behind the model. -/
def head : List String :=
  ["schema", "provider", "correlationId", "scopeDigest", "responseId", "model"]

def tail : List String := ["outputDigest", "observedAt", "recordId", "exportDigest"]

/-- The values of fields; each is there when the payload is accepted. -/
def valuesOf (payload : Option Json) (keys : List String) : List Json :=
  keys.map fun key => (member payload key).getD .null

variable (H : Host)

/-- `new Date(x).toISOString() !== x` throws where the date is invalid, which is asked before. -/
def checkObservedAt (observedAt : Option Json) : Except String Unit := do
  let s ← textOr observedAt
  if !hasForm (js "0000-00-00T00:00:00.000Z") s then throw "g5_witness_invalid"
  match H.parseDate s with
  | none => throw "g5_witness_invalid"
  | some t => if !isString observedAt (toISOString t) then throw "g5_witness_invalid"

def checkPayload (payload : Option Json) : Except String Unit := do
  if !fields payload payloadFields || !isString (member payload "schema") schema ||
      !isString (member payload "provider") (js "azure-openai") ||
      !digest (member payload "correlationId") || !digest (member payload "scopeDigest") ||
      !digest (member payload "outputDigest") || !digest (member payload "exportDigest") then
    throw "g5_witness_invalid"
  let responseId ← textOr (member payload "responseId")
  if !isResponseId responseId || !text (member payload "model") 256 ||
      !text (member payload "recordId") 512 then throw "g5_witness_invalid"
  checkObservedAt H (member payload "observedAt")
  if !fields (member payload "usage") usageFields then throw "g5_witness_invalid"

/-- The tokens of a usage whose total is their sum. -/
def checkUsage (usage : Option Json) : Except String (ℕ × ℕ × ℕ) :=
  match natural (member usage "input_tokens"), natural (member usage "output_tokens"),
    natural (member usage "total_tokens") with
  | some input, some output, some total =>
    if input + output < 2 ^ 53 ∧ input + output = total then .ok (input, output, total)
    else .error "g5_witness_usage_invalid"
  | _, _, _ => .error "g5_witness_usage_invalid"

/-- The array that is signed. -/
def statement (payload : Option Json) (usage : ℕ × ℕ × ℕ) : Json :=
  .array (valuesOf payload head ++
    [.number (.ofNat usage.1), .number (.ofNat usage.2.1), .number (.ofNat usage.2.2)] ++
    valuesOf payload tail)

def witnessSigningBytes (payload : Option Json) : Except String (List UInt8) := do
  checkPayload H payload
  let usage ← checkUsage (member payload "usage")
  return utf8 (domain ++ (statement payload usage).text)

/-! ### Keys -/

variable {H} {payload : Option Json}

theorem length_intercalate {l : List JsString} (hl : l ≠ []) :
    ((js "|").intercalate l).length + 1 = (l.map fun k => k.length + 1).sum := by
  induction l with
  | nil => exact absurd rfl hl
  | cons k l ih =>
    cases l with
    | nil => simp [List.intercalate_singleton]
    | cons j l =>
      have hbar : (js "|").length = 1 := rfl
      have hrest := ih (List.cons_ne_nil j l)
      rw [List.intercalate_cons_cons, List.length_append, List.length_append, hbar, List.map_cons,
        List.sum_cons]
      omega

theorem length_barred {keys : List JsString} (hkeys : keys ≠ []) :
    (barred keys).length + 1 = (keys.map fun k => k.length + 1).sum := by
  have hperm := List.perm_insertionSort (fun a b => unitsLe a b = true) keys
  have hne : keys.insertionSort (fun a b => unitsLe a b = true) ≠ [] := fun h =>
    hkeys (List.Perm.eq_nil (h ▸ hperm.symm))
  rw [barred, length_intercalate hne, (hperm.map _).sum_eq]

/-- An object with these fields has no others: their names would make the joined keys longer. -/
theorem keys_of_barred {keys expected : List JsString} (h : barred keys = barred expected)
    (hne : expected ≠ []) (hnodup : expected.Nodup) (hin : ∀ k ∈ expected, k ∈ keys) :
    keys.Perm expected := by
  have hkeys : keys ≠ [] := by
    rintro rfl
    obtain ⟨k, hk⟩ := List.exists_mem_of_ne_nil _ hne
    cases hin k hk
  have hsum : (keys.map fun k => k.length + 1).sum = (expected.map fun k => k.length + 1).sum := by
    rw [← length_barred hkeys, ← length_barred hne, h]
  have hsub : expected.Subperm keys := List.subperm_of_subset hnodup hin
  refine (hsub.perm_of_length_le ?_).symm
  by_contra hmore
  obtain ⟨k, hk⟩ := hsub.exists_of_length_lt (Nat.lt_of_not_le hmore)
  obtain ⟨l, hperm, hsublist⟩ := hk
  have hle := (hsublist.map fun k => k.length + 1).sum_le_sum fun _ _ => Nat.zero_le _
  rw [(hperm.map _).sum_eq, List.map_cons, List.sum_cons] at hle
  omega

variable {key s : JsString} {v : Option Json} {tokens : ℕ × ℕ × ℕ}

theorem get_isSome {v : Json} :
    (v.get key).isSome ↔ ∃ m, v = .object m ∧ key ∈ m.map Prod.fst := by
  cases v with
  | object m =>
    simp only [Json.get, Option.isSome_map, List.find?_isSome, decide_eq_true_eq, List.mem_map,
      Json.object.injEq, exists_eq_left']
  | _ => simp [Json.get]

/-- A value with the joined keys and all fields has none but these. -/
theorem get_of_fields {expected : List String} (h : fields v expected = true) (hne : expected ≠ [])
    (hnodup : (expected.map js).Nodup) (hin : ∀ key ∈ expected, (member v key).isSome)
    (hkey : key ∉ expected.map js) : v.bind (Json.get key) = none := by
  unfold fields at h
  split at h
  · next m =>
    have hbarred : barred (m.map Prod.fst) = barred (expected.map js) := by simpa using h
    have hperm := keys_of_barred hbarred (by simpa using hne) hnodup fun k hk => by
      obtain ⟨name, hname, rfl⟩ := List.mem_map.mp hk
      have hthere : (Json.get (js name) (.object m)).isSome := hin name hname
      obtain ⟨m', hm', hmem⟩ := get_isSome.mp hthere
      obtain rfl := Json.object.inj hm'
      exact hmem
    rw [Option.bind_some]
    by_contra hsome
    obtain ⟨m', hm', hmem⟩ := get_isSome.mp (Option.isSome_iff_ne_none.mpr hsome)
    obtain rfl := Json.object.inj hm'
    exact hkey (hperm.mem_iff.mp hmem)
  · cases h

/-! ### What is accepted -/

theorem of_digest (h : digest v = true) : ∃ s, v = some (.string s) := by
  unfold digest at h
  split at h
  · exact ⟨_, rfl⟩
  · cases h

theorem of_text {max : ℕ} (h : text v max = true) :
    ∃ s, v = some (.string s) := by
  unfold text at h
  split at h
  · exact ⟨_, rfl⟩
  · cases h

theorem eq_of_text {n m : NumberText} (h : n.text = m.text) : n = m := by
  cases n
  cases m
  cases h
  rfl

theorem of_natural {k : ℕ} (h : natural v = some k) :
    v = some (.number (.ofNat k)) := by
  unfold natural at h
  split at h
  · next n =>
    simp only at h
    split at h
    · next hn =>
      cases h
      exact congrArg (fun m => some (Json.number m)) (eq_of_text hn.1)
    · cases h
  · cases h

theorem of_textOr (h : textOr v = .ok s) (hne : s ≠ []) :
    ∃ w, v = some w ∧ stringOf w = some s := by
  unfold textOr at h
  split at h
  · next w _ =>
    split at h
    · next s' hs' =>
      cases h
      exact ⟨w, rfl, hs'⟩
    · cases h
  · exact absurd (Except.ok.inj h).symm hne

/-- What the checks say of an accepted payload. -/
structure Accepted (payload : Option Json) : Prop where
  keys : fields payload payloadFields = true
  usage : fields (member payload "usage") usageFields = true
  strings : ∀ key ∈ head ++ tail, key ≠ "responseId" → ∃ s, member payload key = some (.string s)
  responseId : ∃ v s, member payload "responseId" = some v ∧ stringOf v = some s ∧
    isResponseId s = true

theorem checkObservedAt_ok (h : checkObservedAt H v = .ok ()) :
    ∃ t, v = some (.string (toISOString t)) ∧ H.parseDate (toISOString t) = some t := by
  unfold checkObservedAt at h
  obtain ⟨s, hs, h⟩ := bind_ok.mp h
  obtain ⟨hform, h⟩ := guard_ok.mp h
  cases ht : H.parseDate s with
  | none => simp [ht, throw, throwThe, MonadExceptOf.throw] at h
  | some t =>
    simp only [ht] at h
    obtain ⟨hiso, -⟩ := last_guard_ok.mp h
    have hv := of_isString (by simpa using hiso)
    subst hv
    have hne : s ≠ [] := by
      rintro rfl
      exact hform rfl
    obtain ⟨w, hw, hstring⟩ := of_textOr hs hne
    cases hw
    obtain rfl : toISOString t = s := Option.some.inj hstring
    exact ⟨t, rfl, ht⟩

theorem accepted_of_check (h : checkPayload H payload = .ok ()) : Accepted payload := by
  unfold checkPayload at h
  obtain ⟨hfirst, h⟩ := guard_ok.mp h
  obtain ⟨responseId, hresponse, h⟩ := bind_ok.mp h
  obtain ⟨hsecond, h⟩ := guard_ok.mp h
  obtain ⟨⟨⟩, hobserved, h⟩ := bind_ok.mp h
  obtain ⟨husage, -⟩ := last_guard_ok.mp h
  simp only [Bool.or_eq_true, not_or, Bool.not_eq_true', Bool.not_eq_false] at hfirst hsecond husage
  obtain ⟨⟨⟨⟨⟨⟨hkeys, hschema⟩, hprovider⟩, hcorrelation⟩, hscope⟩, houtput⟩, hexport⟩ := hfirst
  obtain ⟨⟨hid, hmodel⟩, hrecord⟩ := hsecond
  obtain ⟨t, hdate, -⟩ := checkObservedAt_ok hobserved
  refine ⟨hkeys, husage, fun key hkey hne => ?_, ?_⟩
  · simp only [head, tail, List.cons_append, List.nil_append, List.mem_cons, List.not_mem_nil,
      or_false] at hkey
    rcases hkey with rfl | rfl | rfl | rfl | rfl | rfl | rfl | rfl | rfl | rfl
    · exact ⟨_, of_isString hschema⟩
    · exact ⟨_, of_isString hprovider⟩
    · exact of_digest hcorrelation
    · exact of_digest hscope
    · exact absurd rfl hne
    · exact of_text hmodel
    · exact of_digest houtput
    · exact ⟨_, hdate⟩
    · exact of_text hrecord
    · exact of_digest hexport
  · have hne : responseId ≠ [] := by
      rintro rfl
      exact absurd hid (by decide)
    obtain ⟨v, hv, hs⟩ := of_textOr hresponse hne
    exact ⟨v, responseId, hv, hs, hid⟩

/-! ### Bytes -/

theorem comma_notMem (h : isResponseId s = true) : 44 ∉ s := by
  simp only [isResponseId, decide_eq_true_eq] at h
  obtain ⟨htake, -, -, hword⟩ := h
  intro hmem
  rw [← List.take_append_drop 5 s, List.mem_append, htake] at hmem
  rcases hmem with hmem | hmem
  · exact absurd hmem (by decide)
  · exact absurd (List.all_eq_true.mp hword 44 hmem) (by decide)

theorem partsOf_cons {w : Json} (h : w ≠ .null) (l : List Json) : partsOf (w :: l) =
    (stringOf w).bind fun part => (partsOf l).bind fun parts => some (part :: parts) := by
  cases w with
  | null => exact absurd rfl h
  | _ => rfl

theorem length_partsOf (l : List Json) : ∀ parts, partsOf l = some parts →
    parts.length = l.length := by
  induction l with
  | nil =>
    rintro parts ⟨⟩
    rfl
  | cons v l ih =>
    intro parts hparts
    by_cases hnull : v = .null
    · subst hnull
      obtain ⟨rest, hrest, rfl⟩ := Option.map_eq_some_iff.mp hparts
      simp [ih rest hrest]
    · rw [partsOf_cons hnull] at hparts
      obtain ⟨part, -, hparts⟩ := Option.bind_eq_some_iff.mp hparts
      obtain ⟨rest, hrest, hparts⟩ := Option.bind_eq_some_iff.mp hparts
      cases hparts
      simp [ih rest hrest]

/-- A value of any type whose text is a response id: a string, in arrays of one item. -/
theorem checkUnicode_responseId : ∀ (v : Json) {s : JsString}, stringOf v = some s →
    isResponseId s = true → checkUnicode v.text = true
  | .null, _, hs, h => by
    cases hs
    exact absurd h (by decide)
  | .bool b, _, hs, h => by
    cases hs
    cases b <;> exact absurd h (by decide)
  | .number n, _, hs, h => by
    cases hs
    obtain ⟨u, t, htext, hu⟩ := n.first
    simp only [isResponseId, decide_eq_true_eq, htext] at h
    obtain rfl : u = 114 := by
      have hhead := congrArg List.head? h.1
      simpa [js, utf16] using hhead
    exact absurd hu (by decide)
  | .string t, _, _, _ => checkUnicode_quote t
  | .object m, s, hs, h => by
    rw [stringOf] at hs
    split at hs
    · cases hs
    · cases hs
      exact absurd h (by decide)
  | .array [], s, hs, h => by
    obtain rfl : [] = s := by simpa [stringOf, partsOf, List.intercalate] using hs
    exact absurd h (by decide)
  | .array [w], s, hs, h => by
    have hone : checkUnicode w.text = true → checkUnicode (Json.array [w]).text = true := by
      intro hw
      refine checkUnicode_array fun t ht => ?_
      obtain rfl : t = w.text := by simpa [Json.texts] using ht
      exact hw
    by_cases hnull : w = .null
    · subst hnull
      obtain rfl : [] = s := by simpa [stringOf, partsOf, List.intercalate] using hs
      exact absurd h (by decide)
    · have hw : stringOf w = some s := by
        rw [stringOf, partsOf_cons hnull] at hs
        cases hpart : stringOf w with
        | none => simp [hpart] at hs
        | some part => simpa [hpart, partsOf, List.intercalate_singleton] using hs
      exact hone (checkUnicode_responseId w hw h)
  | .array (w :: w' :: l), s, hs, h => by
    exfalso
    rw [stringOf, Option.map_eq_some_iff] at hs
    obtain ⟨parts, hparts, rfl⟩ := hs
    refine comma_notMem h ?_
    have htwo := length_partsOf _ parts hparts
    have hsize : 1 < parts.length := by simp [htwo]
    obtain ⟨a, rest, rfl⟩ := List.exists_cons_of_length_pos (Nat.zero_lt_of_lt hsize)
    obtain ⟨b, rest, rfl⟩ := List.exists_cons_of_length_pos (Nat.lt_of_succ_lt_succ hsize)
    rw [List.intercalate_cons_cons]
    simp [js, utf16]

theorem checkUnicode_values {keys : List String} (h : Accepted payload)
    (hkeys : ∀ key ∈ keys, key ∈ head ++ tail) :
    ∀ t ∈ (valuesOf payload keys).map Json.text, checkUnicode t = true := by
  intro t ht
  obtain ⟨v, hv, rfl⟩ := List.mem_map.mp ht
  obtain ⟨key, hkey, rfl⟩ := List.mem_map.mp hv
  by_cases hid : key = "responseId"
  · subst hid
    obtain ⟨w, s, hw, hs, his⟩ := h.responseId
    rw [hw]
    exact checkUnicode_responseId w hs his
  · obtain ⟨s, hs⟩ := h.strings key (hkeys key hkey) hid
    rw [hs]
    exact checkUnicode_quote s

theorem texts_eq_map (l : List Json) : Json.texts l = l.map Json.text := by
  induction l with
  | nil => rfl
  | cons v l ih => rw [Json.texts, ih, List.map_cons]

theorem checkUnicode_statement (h : Accepted payload) (usage : ℕ × ℕ × ℕ) :
    checkUnicode (domain ++ (statement payload usage).text) = true := by
  refine checkUnicode_append (by rfl) (checkUnicode_array fun t ht => ?_)
  rw [texts_eq_map, List.map_append, List.map_append, List.mem_append, List.mem_append] at ht
  rcases ht with (ht | ht) | ht
  · exact checkUnicode_values h (fun key hkey => List.mem_append_left _ hkey) t ht
  · simp only [List.map_cons, List.map_nil, List.mem_cons, List.not_mem_nil, or_false] at ht
    rcases ht with rfl | rfl | rfl <;> exact checkUnicode_numeral _
  · exact checkUnicode_values h (fun key hkey => List.mem_append_right _ hkey) t ht

/-- The same fields with the same values, and the same counts of tokens. -/
structure Same (p q : Option Json) : Prop where
  fields : ∀ key, key ≠ js "usage" → p.bind (Json.get key) = q.bind (Json.get key)
  usage : ∀ key, (member p "usage").bind (Json.get key) = (member q "usage").bind (Json.get key)

theorem checkUsage_ok {usage : Option Json} (h : checkUsage usage = .ok tokens) :
    member usage "input_tokens" = some (.number (.ofNat tokens.1)) ∧
    member usage "output_tokens" = some (.number (.ofNat tokens.2.1)) ∧
    member usage "total_tokens" = some (.number (.ofNat tokens.2.2)) := by
  unfold checkUsage at h
  split at h
  · next input output total hinput houtput htotal =>
    split at h
    · cases h
      exact ⟨of_natural hinput, of_natural houtput, of_natural htotal⟩
    · cases h
  · cases h

theorem checkUsage_isSome {usage : Option Json} (h : checkUsage usage = .ok tokens) {key : String}
    (hkey : key ∈ usageFields) :
    (member usage key).isSome := by
  obtain ⟨hinput, houtput, htotal⟩ := checkUsage_ok h
  simp only [usageFields, List.mem_cons, List.not_mem_nil, or_false] at hkey
  rcases hkey with rfl | rfl | rfl
  · rw [hinput]
    rfl
  · rw [houtput]
    rfl
  · rw [htotal]
    rfl

theorem member_eq_of_values {q : Option Json} {keys : List String}
    (h : valuesOf payload keys = valuesOf q keys) {key : String} (hkey : key ∈ keys)
    (hp : (member payload key).isSome) (hq : (member q key).isSome) :
    member payload key = member q key := by
  obtain ⟨v, hv⟩ := Option.isSome_iff_exists.mp hp
  obtain ⟨w, hw⟩ := Option.isSome_iff_exists.mp hq
  have heq := List.map_inj_left.mp h key hkey
  rw [hv, hw] at heq ⊢
  exact congrArg some heq

theorem Accepted.isSome (h : Accepted payload) {key : String} (hkey : key ∈ head ++ tail) :
    (member payload key).isSome := by
  by_cases hid : key = "responseId"
  · obtain ⟨v, s, hv, -⟩ := h.responseId
    rw [hid, hv]
    rfl
  · obtain ⟨s, hs⟩ := h.strings key hkey hid
    rw [hs]
    rfl

/-- The usage is the only field that is not written with its value. -/
theorem field_cases : ∀ name ∈ payloadFields, name = "usage" ∨ name ∈ head ++ tail := by decide

theorem payloadKeys_nodup : (payloadFields.map js).Nodup := by decide

theorem usageKeys_nodup : (usageFields.map js).Nodup := by decide

theorem Accepted.none (h : Accepted payload) (hkey : key ∉ payloadFields.map js) :
    payload.bind (Json.get key) = none := by
  refine get_of_fields h.keys (by decide) payloadKeys_nodup (fun name hname => ?_) hkey
  rcases field_cases name hname with rfl | hname
  · have hfields := h.usage
    unfold Witness.fields at hfields
    split at hfields
    · next heq => simp [heq]
    · cases hfields
  · exact h.isSome hname

theorem Accepted.usage_none (h : Accepted payload)
    (htokens : checkUsage (member payload "usage") = .ok tokens) (hkey : key ∉ usageFields.map js) :
    (member payload "usage").bind (Json.get key) = Option.none := by
  have hin : ∀ name ∈ usageFields, (member (member payload "usage") name).isSome :=
    fun name hname => checkUsage_isSome htokens hname
  exact get_of_fields h.usage (by decide) usageKeys_nodup hin hkey

theorem ofNat_injective : Function.Injective NumberText.ofNat := fun _ _ h =>
  numeral_injective (congrArg NumberText.text h)

/-- Payloads with the same bytes have the same fields. -/
theorem same_of_bytes {p q : Option Json} {bytes : List UInt8}
    (hp : witnessSigningBytes H p = .ok bytes) (hq : witnessSigningBytes H q = .ok bytes) :
    Same p q := by
  unfold witnessSigningBytes at hp hq
  obtain ⟨⟨⟩, hcheck, hp⟩ := bind_ok.mp hp
  obtain ⟨⟨⟩, hcheck', hq⟩ := bind_ok.mp hq
  obtain ⟨⟨i, o, t⟩, husage, hp⟩ := bind_ok.mp hp
  obtain ⟨⟨i', o', t'⟩, husage', hq⟩ := bind_ok.mp hq
  have hacc := accepted_of_check hcheck
  have hacc' := accepted_of_check hcheck'
  -- The bytes give the text, the text the array, and the array its parts.
  have hbytes := (pure_ok.mp hp).trans (pure_ok.mp hq).symm
  have htext := eq_of_utf8 (checkUnicode_statement hacc _) (checkUnicode_statement hacc' _) hbytes
  have hlists := Json.array.inj (Json.text_injective (List.append_cancel_left htext))
  obtain ⟨hfront, htail⟩ := List.append_inj hlists (by simp [valuesOf])
  obtain ⟨hhead, htokens⟩ := List.append_inj hfront (by simp [valuesOf])
  simp only [List.cons.injEq, Json.number.injEq, and_true] at htokens
  obtain ⟨hi, ho, ht⟩ := htokens
  obtain rfl := ofNat_injective hi
  obtain rfl := ofNat_injective ho
  obtain rfl := ofNat_injective ht
  have husages : ∀ key ∈ usageFields,
      member (member p "usage") key = member (member q "usage") key := by
    obtain ⟨h1, h2, h3⟩ := checkUsage_ok husage
    obtain ⟨h1', h2', h3'⟩ := checkUsage_ok husage'
    intro key hkey
    simp only [usageFields, List.mem_cons, List.not_mem_nil, or_false] at hkey
    rcases hkey with rfl | rfl | rfl
    · rw [h1, h1']
    · rw [h2, h2']
    · rw [h3, h3']
  have hothers : ∀ key ∈ head ++ tail, member p key = member q key := by
    intro key hkey
    have hin := hacc.isSome hkey
    have hin' := hacc'.isSome hkey
    rcases List.mem_append.mp hkey with hk | hk
    · exact member_eq_of_values hhead hk hin hin'
    · exact member_eq_of_values htail hk hin hin'
  constructor
  · intro key hne
    by_cases hkey : key ∈ payloadFields.map js
    · obtain ⟨name, hname, rfl⟩ := List.mem_map.mp hkey
      rcases field_cases name hname with rfl | hname
      · exact absurd rfl hne
      · exact hothers name hname
    · rw [hacc.none hkey, hacc'.none hkey]
  · intro key
    by_cases hkey : key ∈ usageFields.map js
    · obtain ⟨name, hname, rfl⟩ := List.mem_map.mp hkey
      exact husages name hname
    · rw [hacc.usage_none husage hkey, hacc'.usage_none husage' hkey]

end Truyn.Witness
