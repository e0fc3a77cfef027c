import Truyn.Js.Values

/-! js:buffers | the bytes of a string: UTF-8 and Base64

    A lone surrogate is replaced in UTF-8, so strings without one can be told by their bytes
    (`eq_of_utf8`); what `JSON.stringify` writes has none (`checkUnicode_quote`). The Base64 decoder
    skips what is no digit, reads both alphabets and stops at `=`. -/

namespace Truyn

/-! ### UTF-8 -/

/-- A continuation byte: the six bits of `n` above the lowest `k`. -/
def tailByte (n k : ℕ) : UInt8 := UInt8.ofNat (0x80 + n / 2 ^ k % 64)

/-- The bytes of a code unit that has no other half. -/
def unitUtf8 (u : UInt16) : List UInt8 :=
  let n := u.toNat
  if n < 0x80 then [UInt8.ofNat n]
  else if n < 0x800 then [UInt8.ofNat (0xC0 + n / 64), tailByte n 0]
  else if isHigh u || isLow u then [0xEF, 0xBF, 0xBD]
  else [UInt8.ofNat (0xE0 + n / 4096), tailByte n 6, tailByte n 0]

/-- The four bytes of a surrogate pair. -/
def pairUtf8 (u v : UInt16) : List UInt8 :=
  let n := 0x10000 + (u.toNat - 0xD800) * 0x400 + (v.toNat - 0xDC00)
  [UInt8.ofNat (0xF0 + n / 2 ^ 18), tailByte n 12, tailByte n 6, tailByte n 0]

/-- `Buffer.from(s, 'utf8')`. -/
def utf8 : JsString → List UInt8
  | [] => []
  | [u] => unitUtf8 u
  | u :: v :: s => if isHigh u && isLow v then pairUtf8 u v ++ utf8 s else unitUtf8 u ++ utf8 (v :: s)

example : utf8 (js "é€😀") = [0xC3, 0xA9, 0xE2, 0x82, 0xAC, 0xF0, 0x9F, 0x98, 0x80] := by decide

/-- The code units of the first character, and the bytes behind it. -/
def readUtf8 : List UInt8 → Option (JsString × List UInt8)
  | [] => none
  | a :: x =>
    let n := a.toNat
    if n < 0x80 then some ([UInt16.ofNat n], x)
    else if n < 0xE0 then
      match x with
      | b :: x => some ([UInt16.ofNat ((n - 0xC0) * 64 + (b.toNat - 0x80))], x)
      | _ => none
    else if n < 0xF0 then
      match x with
      | b :: c :: x =>
        some ([UInt16.ofNat ((n - 0xE0) * 4096 + (b.toNat - 0x80) * 64 + (c.toNat - 0x80))], x)
      | _ => none
    else
      match x with
      | b :: c :: d :: x =>
        let m := (n - 0xF0) * 2 ^ 18 + (b.toNat - 0x80) * 4096 + (c.toNat - 0x80) * 64 +
          (d.toNat - 0x80) - 0x10000
        some ([UInt16.ofNat (0xD800 + m / 0x400), UInt16.ofNat (0xDC00 + m % 0x400)], x)
      | _ => none

theorem toNat_tailByte (n k : ℕ) : (tailByte n k).toNat - 0x80 = n / 2 ^ k % 64 := by
  have hlt : n / 2 ^ k % 64 < 64 := Nat.mod_lt _ (by decide)
  rw [tailByte, UInt8.toNat_ofNat', Nat.mod_eq_of_lt (by omega)]
  omega

theorem readUtf8_unit {u : UInt16} (hhigh : isHigh u = false) (hlow : isLow u = false)
    (x : List UInt8) : readUtf8 (unitUtf8 u ++ x) = some ([u], x) := by
  have hu := u.toNat_lt
  have hback : ∀ m, m = u.toNat → UInt16.ofNat m = u := by
    rintro m rfl
    exact UInt16.ofNat_toNat
  simp only [unitUtf8]
  split
  · next h =>
    have hn : (UInt8.ofNat u.toNat).toNat = u.toNat := by
      rw [UInt8.toNat_ofNat', Nat.mod_eq_of_lt (by omega)]
    simp only [readUtf8, List.cons_append, List.nil_append, hn]
    rw [if_pos h, hback _ rfl]
  split
  · next h h' =>
    have hn : (UInt8.ofNat (0xC0 + u.toNat / 64)).toNat = 0xC0 + u.toNat / 64 := by
      rw [UInt8.toNat_ofNat', Nat.mod_eq_of_lt (by omega)]
    simp only [readUtf8, List.cons_append, List.nil_append, hn, toNat_tailByte]
    rw [if_neg (by omega), if_pos (by omega), hback _ (by omega)]
  split
  · next h => simp [hhigh, hlow] at h
  · next h h' _ =>
    have hn : (UInt8.ofNat (0xE0 + u.toNat / 4096)).toNat = 0xE0 + u.toNat / 4096 := by
      rw [UInt8.toNat_ofNat', Nat.mod_eq_of_lt (by omega)]
    simp only [readUtf8, List.cons_append, List.nil_append, hn, toNat_tailByte]
    rw [if_neg (by omega), if_neg (by omega), if_pos (by omega), hback _ (by omega)]

theorem readUtf8_pair {u v : UInt16} (hu : isHigh u = true) (hv : isLow v = true)
    (x : List UInt8) : readUtf8 (pairUtf8 u v ++ x) = some ([u, v], x) := by
  simp only [isHigh, isLow, decide_eq_true_eq, UInt16.le_iff_toNat_le] at hu hv
  obtain ⟨hu1, hu2⟩ : 0xD800 ≤ u.toNat ∧ u.toNat ≤ 0xDBFF := hu
  obtain ⟨hv1, hv2⟩ : 0xDC00 ≤ v.toNat ∧ v.toNat ≤ 0xDFFF := hv
  simp only [pairUtf8]
  generalize hn : 0x10000 + (u.toNat - 0xD800) * 0x400 + (v.toNat - 0xDC00) = n
  have hlt : n < 0x110000 := by omega
  have hfirst : (UInt8.ofNat (0xF0 + n / 2 ^ 18)).toNat = 0xF0 + n / 2 ^ 18 := by
    rw [UInt8.toNat_ofNat', Nat.mod_eq_of_lt (by omega)]
  simp only [readUtf8, List.cons_append, List.nil_append, hfirst, toNat_tailByte]
  rw [if_neg (by omega), if_neg (by omega), if_neg (by omega)]
  have hm : (0xF0 + n / 2 ^ 18 - 0xF0) * 2 ^ 18 + n / 2 ^ 12 % 64 * 4096 + n / 2 ^ 6 % 64 * 64 +
      n / 2 ^ 0 % 64 - 0x10000 = (u.toNat - 0xD800) * 0x400 + (v.toNat - 0xDC00) := by omega
  have hleft : 0xD800 + ((u.toNat - 0xD800) * 0x400 + (v.toNat - 0xDC00)) / 0x400 = u.toNat := by
    omega
  have hright : 0xDC00 + ((u.toNat - 0xD800) * 0x400 + (v.toNat - 0xDC00)) % 0x400 = v.toNat := by
    omega
  rw [hm, hleft, hright, UInt16.ofNat_toNat, UInt16.ofNat_toNat]

variable {s t : JsString} {plus slash : UInt16} {l : List JsString}

/-- The first character of a well-formed string, as it stands in the bytes. -/
theorem readUtf8_utf8 {u : UInt16} (h : checkUnicode (u :: s) = true) :
    ∃ c r, c ++ r = u :: s ∧ checkUnicode r = true ∧ r.length < (u :: s).length ∧
      readUtf8 (utf8 (u :: s)) = some (c, utf8 r) := by
  cases s with
  | nil =>
    simp only [checkUnicode, Bool.and_eq_true, Bool.not_eq_true'] at h
    have hread := readUtf8_unit h.1 h.2 []
    rw [List.append_nil] at hread
    exact ⟨[u], [], rfl, rfl, by simp, hread⟩
  | cons v s =>
    rw [checkUnicode] at h
    by_cases hu : isHigh u = true
    · rw [if_pos hu, Bool.and_eq_true] at h
      refine ⟨[u, v], s, rfl, h.2, by simp, ?_⟩
      rw [utf8, if_pos (by simp [hu, h.1])]
      exact readUtf8_pair hu h.1 _
    · rw [if_neg hu, Bool.and_eq_true, Bool.not_eq_true'] at h
      refine ⟨[u], v :: s, rfl, h.2, by simp, ?_⟩
      rw [utf8, if_neg (by simp [hu])]
      exact readUtf8_unit (Bool.eq_false_iff.mpr hu) h.1 _

/-- By induction on the length of both strings, a character at a time. -/
theorem eq_of_utf8 (hs : checkUnicode s = true) (ht : checkUnicode t = true)
    (hbytes : utf8 s = utf8 t) : s = t := by
  induction hn : s.length using Nat.strongRecOn generalizing s t with
  | ind n ih =>
    subst hn
    cases s with
    | nil =>
      cases t with
      | nil => rfl
      | cons v t =>
        obtain ⟨c, r, -, -, -, hread⟩ := readUtf8_utf8 ht
        rw [← hbytes] at hread
        cases hread
    | cons u s =>
      obtain ⟨c, r, hsplit, hr, hless, hread⟩ := readUtf8_utf8 hs
      cases t with
      | nil =>
        rw [hbytes] at hread
        cases hread
      | cons v t =>
        obtain ⟨c', r', hsplit', hr', -, hread'⟩ := readUtf8_utf8 ht
        rw [hbytes, hread'] at hread
        obtain ⟨rfl, hrest⟩ := Prod.mk.inj (Option.some.inj hread)
        rw [← hsplit, ← hsplit', ih r.length hless hr hr' hrest.symm rfl]

/-! ### Well-formed texts -/

theorem checkUnicode_append (hs : checkUnicode s = true) (ht : checkUnicode t = true) :
    checkUnicode (s ++ t) = true := by
  induction hn : s.length using Nat.strongRecOn generalizing s with
  | ind n ih =>
    subst hn
    match s, hs with
    | [], _ => exact ht
    | [u], hs =>
      simp only [checkUnicode, Bool.and_eq_true, Bool.not_eq_true'] at hs
      cases t with
      | nil => simp [checkUnicode, hs]
      | cons v t => simp [checkUnicode, hs, ht]
    | u :: v :: s, hs =>
      rw [List.cons_append, List.cons_append, checkUnicode]
      rw [checkUnicode] at hs
      by_cases hu : isHigh u = true
      · rw [if_pos hu, Bool.and_eq_true] at hs ⊢
        exact ⟨hs.1, ih s.length (by simp) hs.2 rfl⟩
      · rw [if_neg hu, Bool.and_eq_true] at hs ⊢
        exact ⟨hs.1, ih (v :: s).length (by simp) hs.2 rfl⟩

theorem checkUnicode_ascii (h : ∀ u ∈ s, u < 0x80) : checkUnicode s = true := by
  induction s with
  | nil => rfl
  | cons u s ih =>
    have hone : checkUnicode [u] = true := by
      simp [checkUnicode, not_surrogate_of_ascii (h u List.mem_cons_self)]
    exact checkUnicode_append hone (ih fun v hv => h v (List.mem_cons_of_mem _ hv))

theorem hexDigit_ascii (n : ℕ) (h : n < 16) : hexDigit n < 0x80 := by
  have hall : ∀ n : Fin 16, hexDigit n < 0x80 := by decide
  exact hall ⟨n, h⟩

/-- An escaped code unit is half of a pair, or well-formed by itself. -/
theorem checkUnicode_escapeUnit {pair : Bool} {u : UInt16} (h : pair = false) :
    checkUnicode (escapeUnit pair u) = true := by
  unfold escapeUnit
  split; · decide
  split; · decide
  split; · decide
  split; · decide
  split; · decide
  split; · decide
  split; · decide
  split
  · refine checkUnicode_ascii fun v hv => ?_
    simp only [unicodeEscape, List.mem_cons, List.not_mem_nil, or_false] at hv
    rcases hv with rfl | rfl | rfl | rfl | rfl | rfl
    · decide
    · decide
    · exact hexDigit_ascii _ (Nat.mod_lt _ (by decide))
    · exact hexDigit_ascii _ (Nat.mod_lt _ (by decide))
    · exact hexDigit_ascii _ (Nat.mod_lt _ (by decide))
    · exact hexDigit_ascii _ (Nat.mod_lt _ (by decide))
  · next hcontrol =>
    simp only [h, Bool.not_false, and_true, not_or] at hcontrol
    simp [checkUnicode, hcontrol.2]

/-- Only the second half of a pair is written otherwise behind its first half. -/
theorem escapeFrom_apart (h : ¬s.head?.any isLow) (b : Bool) :
    escapeFrom b s = escapeFrom false s := by
  cases s with
  | nil => rfl
  | cons u s =>
    have hlow : isLow u = false := by simpa using h
    simp [escapeFrom, paired, hlow]

/-- Half of a pair is written as it is. -/
theorem escapeUnit_surrogate {u : UInt16} (h : isHigh u = true ∨ isLow u = true) :
    escapeUnit true u = [u] := by
  have hbig : 0xD800 ≤ u.toNat := by
    simp only [isHigh, isLow, decide_eq_true_eq, UInt16.le_iff_toNat_le] at h
    rcases h with ⟨h, -⟩ | ⟨h, -⟩
    · exact h
    · exact le_trans (by decide) h
  have hne : ∀ v : UInt16, v.toNat < 0xD800 → u ≠ v := by
    rintro v hv rfl
    omega
  have h32 : ¬u < 32 := by
    rw [UInt16.lt_iff_toNat_lt]
    show ¬u.toNat < 32
    omega
  simp [escapeUnit, h32, hne 8 (by decide), hne 9 (by decide), hne 10 (by decide),
    hne 12 (by decide), hne 13 (by decide), hne 34 (by decide), hne 92 (by decide)]

/-- By induction on the length, a character at a time: a lone surrogate is written in ASCII. -/
theorem checkUnicode_escapeFrom (s : JsString) : checkUnicode (escapeFrom false s) = true := by
  induction hn : s.length using Nat.strongRecOn generalizing s with
  | ind n ih =>
    subst hn
    cases s with
    | nil => rfl
    | cons u s =>
      rw [escapeFrom]
      by_cases hpair : isHigh u = true ∧ s.head?.any isLow = true
      · obtain ⟨hu, hv⟩ := hpair
        cases s with
        | nil => simp at hv
        | cons v s =>
          have hlow : isLow v = true := by simpa using hv
          have hhigh : isHigh v = false := by
            simp only [isHigh, isLow, decide_eq_true_eq, decide_eq_false_iff_not,
              UInt16.le_iff_toNat_le] at hlow ⊢
            rintro ⟨-, h⟩
            have h' : v.toNat ≤ 0xDBFF := h
            have hlow' : 0xDC00 ≤ v.toNat := hlow.1
            omega
          have hfirst : paired false u (v :: s) = true := by simp [paired, hu, hlow]
          have hsecond : paired true v s = true := by simp [paired, hlow]
          rw [hfirst, hu, escapeFrom, hsecond, escapeUnit_surrogate (.inl hu),
            escapeUnit_surrogate (.inr hlow), hhigh]
          simp [checkUnicode, hu, hlow, ih s.length (by simp) s rfl]
      · have hlone : paired false u s = false := by
          simp only [paired, Bool.and_false, Bool.or_false, Bool.and_eq_false_iff]
          by_cases hu : isHigh u = true
          · exact .inr (Bool.eq_false_iff.mpr fun h => hpair ⟨hu, h⟩)
          · exact .inl (Bool.eq_false_iff.mpr hu)
        have hrest : escapeFrom (isHigh u) s = escapeFrom false s := by
          by_cases hu : isHigh u = true
          · exact escapeFrom_apart (fun h => hpair ⟨hu, h⟩) _
          · rw [Bool.eq_false_iff.mpr hu]
        rw [hrest]
        exact checkUnicode_append (checkUnicode_escapeUnit hlone) (ih s.length (by simp) s rfl)

theorem checkUnicode_quote (s : JsString) : checkUnicode (quote s) = true := by
  have hmark : checkUnicode [34] = true := by decide
  exact checkUnicode_append hmark (checkUnicode_append (checkUnicode_escapeFrom s) hmark)

theorem checkUnicode_commas (h : ∀ t ∈ l, checkUnicode t = true) :
    checkUnicode (commas l) = true := by
  induction l with
  | nil => rfl
  | cons v l ih =>
    have hv := h v List.mem_cons_self
    have hrest := ih fun t ht => h t (List.mem_cons_of_mem _ ht)
    cases l with
    | nil => exact hv
    | cons w l =>
      have hcomma : checkUnicode [44] = true := by decide
      exact checkUnicode_append hv (checkUnicode_append hcomma hrest)

theorem checkUnicode_array (h : ∀ t ∈ l, checkUnicode t = true) :
    checkUnicode (array l) = true := by
  have hopen : checkUnicode [91] = true := by decide
  have hclose : checkUnicode [93] = true := by decide
  exact checkUnicode_append hopen (checkUnicode_append (checkUnicode_commas h) hclose)

theorem checkUnicode_member {m : JsString × JsString} (h : checkUnicode m.2 = true) :
    checkUnicode (member m) = true := by
  have hcolon : checkUnicode [58] = true := by decide
  exact checkUnicode_append (checkUnicode_quote m.1) (checkUnicode_append hcolon h)

theorem checkUnicode_object {l : List (JsString × JsString)}
    (h : ∀ m ∈ l, checkUnicode m.2 = true) : checkUnicode (object l) = true := by
  have hopen : checkUnicode [123] = true := by decide
  have hclose : checkUnicode [125] = true := by decide
  refine checkUnicode_append hopen (checkUnicode_append (checkUnicode_commas fun t ht => ?_) hclose)
  obtain ⟨m, hm, rfl⟩ := List.mem_map.mp ht
  exact checkUnicode_member (h m hm)

theorem checkUnicode_numeral (n : ℕ) : checkUnicode (numeral n) = true :=
  checkUnicode_ascii fun u hu =>
    UInt16.lt_of_le_of_lt (numeral_digits n u hu).2 (by decide)

/-! ### Base64 -/

/-- A digit of the alphabet whose last two digits are `plus` and `slash`. -/
def base64Digit (plus slash : UInt16) (n : ℕ) : UInt16 :=
  if n < 26 then UInt16.ofNat (65 + n)
  else if n < 52 then UInt16.ofNat (71 + n)
  else if n < 62 then UInt16.ofNat (n - 4)
  else if n = 62 then plus
  else slash

def base64With (plus slash : UInt16) (padding : Bool) : List UInt8 → JsString
  | [] => []
  | [a] =>
    let n := a.toNat * 16
    [base64Digit plus slash (n / 64), base64Digit plus slash (n % 64)] ++
      if padding then [61, 61] else []
  | [a, b] =>
    let n := (a.toNat * 256 + b.toNat) * 4
    [base64Digit plus slash (n / 4096), base64Digit plus slash (n / 64 % 64),
      base64Digit plus slash (n % 64)] ++ if padding then [61] else []
  | a :: b :: c :: bytes =>
    let n := (a.toNat * 256 + b.toNat) * 256 + c.toNat
    [base64Digit plus slash (n / 2 ^ 18), base64Digit plus slash (n / 4096 % 64),
      base64Digit plus slash (n / 64 % 64), base64Digit plus slash (n % 64)] ++
      base64With plus slash padding bytes

/-- `buffer.toString('base64')`. -/
def base64 (bytes : List UInt8) : JsString := base64With 43 47 true bytes

/-- `buffer.toString('base64url')`. -/
def base64url (bytes : List UInt8) : JsString := base64With 45 95 false bytes

/-- What a code unit is as a digit of either alphabet. -/
def base64Value (u : UInt16) : Option ℕ :=
  if 65 ≤ u ∧ u ≤ 90 then some (u.toNat - 65)
  else if 97 ≤ u ∧ u ≤ 122 then some (u.toNat - 71)
  else if 48 ≤ u ∧ u ≤ 57 then some (u.toNat + 4)
  else if u = 43 ∨ u = 45 then some 62
  else if u = 47 ∨ u = 95 then some 63
  else none

/-- Four digits make three bytes; one digit that is left makes none. -/
def base64Bytes : List ℕ → List UInt8
  | a :: b :: c :: d :: digits =>
    UInt8.ofNat (a * 4 + b / 16) :: UInt8.ofNat (b * 16 + c / 4) :: UInt8.ofNat (c * 64 + d) ::
      base64Bytes digits
  | [a, b, c] => [UInt8.ofNat (a * 4 + b / 16), UInt8.ofNat (b * 16 + c / 4)]
  | [a, b] => [UInt8.ofNat (a * 4 + b / 16)]
  | _ => []

/-- `Buffer.from(s, 'base64')`, also for `'base64url'`. -/
def fromBase64 (s : JsString) : List UInt8 :=
  base64Bytes ((s.takeWhile fun u => u ≠ 61).filterMap base64Value)

example : fromBase64 (js "AP-_ /w==") = fromBase64 (js "AP+//w") := by decide

/-- The six-bit digits of bytes. -/
def sextets : List UInt8 → List ℕ
  | [] => []
  | [a] => [a.toNat * 16 / 64, a.toNat * 16 % 64]
  | [a, b] =>
    let n := (a.toNat * 256 + b.toNat) * 4
    [n / 4096, n / 64 % 64, n % 64]
  | a :: b :: c :: bytes =>
    let n := (a.toNat * 256 + b.toNat) * 256 + c.toNat
    [n / 2 ^ 18, n / 4096 % 64, n / 64 % 64, n % 64] ++ sextets bytes

theorem base64url_sextets (bytes : List UInt8) :
    base64url bytes = (sextets bytes).map (base64Digit 45 95) := by
  unfold base64url
  fun_induction sextets bytes with
  | case1 => rfl
  | case2 a => simp [base64With]
  | case3 a b n => simp [base64With, n]
  | case4 a b c bytes n ih => simp [base64With, n, ih]

theorem sextets_lt (bytes : List UInt8) : ∀ n ∈ sextets bytes, n < 64 := by
  fun_induction sextets bytes with
  | case1 => simp
  | case2 a =>
    have ha := a.toNat_lt
    simp only [List.mem_cons, List.not_mem_nil, or_false, forall_eq_or_imp, forall_eq]
    omega
  | case3 a b n =>
    have ha := a.toNat_lt
    have hb := b.toNat_lt
    simp only [List.mem_cons, List.not_mem_nil, or_false, forall_eq_or_imp, forall_eq]
    omega
  | case4 a b c bytes n ih =>
    have ha := a.toNat_lt
    have hb := b.toNat_lt
    have hc := c.toNat_lt
    simp only [List.mem_append, List.mem_cons, List.not_mem_nil, or_false]
    rintro k ((rfl | rfl | rfl | rfl) | hk)
    · omega
    · omega
    · omega
    · omega
    · exact ih k hk

theorem base64Bytes_sextets (bytes : List UInt8) : base64Bytes (sextets bytes) = bytes := by
  have hbyte : ∀ (a : UInt8) (n : ℕ), n % 256 = a.toNat → UInt8.ofNat n = a := by
    intro a n h
    apply UInt8.toNat_inj.mp
    rw [UInt8.toNat_ofNat', ← h]
  fun_induction sextets bytes with
  | case1 => rfl
  | case2 a =>
    have ha := a.toNat_lt
    simp only [base64Bytes]
    rw [hbyte a _ (by omega)]
  | case3 a b n =>
    have ha := a.toNat_lt
    have hb := b.toNat_lt
    simp only [base64Bytes]
    rw [hbyte a _ (by omega), hbyte b _ (by omega)]
  | case4 a b c bytes n ih =>
    have ha := a.toNat_lt
    have hb := b.toNat_lt
    have hc := c.toNat_lt
    simp only [base64Bytes, List.cons_append, List.nil_append, ih]
    rw [hbyte a _ (by omega), hbyte b _ (by omega), hbyte c _ (by omega)]

/-- The digits of the first alphabet, and the padding behind them. -/
theorem base64_sextets (bytes : List UInt8) : base64 bytes =
    (sextets bytes).map (base64Digit 43 47) ++ List.replicate ((3 - bytes.length % 3) % 3) 61 := by
  unfold base64
  fun_induction sextets bytes with
  | case1 => rfl
  | case2 a => simp [base64With]
  | case3 a b n => simp [base64With, n]
  | case4 a b c bytes n ih =>
    have hpadding : (3 - (bytes.length + 1 + 1 + 1) % 3) % 3 = (3 - bytes.length % 3) % 3 := by
      omega
    simp [base64With, n, ih, hpadding]

theorem length_sextets (bytes : List UInt8) :
    (sextets bytes).length + (3 - bytes.length % 3) % 3 = (bytes.length + 2) / 3 * 4 := by
  fun_induction sextets bytes with
  | case1 => rfl
  | case2 a => simp
  | case3 a b n => simp
  | case4 a b c bytes n ih =>
    simp only [List.length_append, List.length_cons, List.length_nil]
    omega

theorem length_base64 (bytes : List UInt8) : (base64 bytes).length = (bytes.length + 2) / 3 * 4 := by
  rw [base64_sextets, List.length_append, List.length_map, List.length_replicate, length_sextets]

/-- A digit is read as itself in either alphabet, and is no padding. -/
theorem base64Value_digit (h : plus = 43 ∧ slash = 47 ∨ plus = 45 ∧ slash = 95) :
    ∀ n < 64, base64Value (base64Digit plus slash n) = some n ∧ base64Digit plus slash n ≠ 61 := by
  rcases h with ⟨rfl, rfl⟩ | ⟨rfl, rfl⟩
  · decide
  · decide

/-- What stands behind the first padding is not read. -/
theorem fromBase64_digits (h : plus = 43 ∧ slash = 47 ∨ plus = 45 ∧ slash = 95) (bytes : List UInt8)
    (n : ℕ) :
    fromBase64 ((sextets bytes).map (base64Digit plus slash) ++ List.replicate n 61) = bytes := by
  have hdigit := base64Value_digit h
  have hlt := sextets_lt bytes
  have hwhole : ∀ u ∈ (sextets bytes).map (base64Digit plus slash), decide (u ≠ 61) = true := by
    intro u hu
    obtain ⟨k, hk, rfl⟩ := List.mem_map.mp hu
    exact decide_eq_true (hdigit k (hlt k hk)).2
  have hstop : (List.replicate n (61 : UInt16)).takeWhile (fun u => u ≠ 61) = [] := by
    cases n <;> rfl
  have hread : (sextets bytes).filterMap (base64Value ∘ base64Digit plus slash) =
      (sextets bytes).filterMap some :=
    List.filterMap_congr fun k hk => (hdigit k (hlt k hk)).1
  rw [fromBase64, List.takeWhile_append_of_pos hwhole, hstop, List.append_nil, List.filterMap_map,
    hread, List.filterMap_some, base64Bytes_sextets]

/-- What was encoded is decoded. -/
theorem fromBase64_base64url (bytes : List UInt8) : fromBase64 (base64url bytes) = bytes := by
  have h := fromBase64_digits (.inr ⟨rfl, rfl⟩) bytes 0
  rwa [List.replicate_zero, List.append_nil, ← base64url_sextets] at h

theorem fromBase64_base64 (bytes : List UInt8) : fromBase64 (base64 bytes) = bytes := by
  rw [base64_sextets]
  exact fromBase64_digits (.inl ⟨rfl, rfl⟩) bytes _

end Truyn
