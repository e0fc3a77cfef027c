import Truyn.Js.Buffers

/-! js:decoder | UTF-8 read byte by byte

    A byte that cannot stand where it stands ends a character with U+FFFD and is looked at again as
    the first byte of the next one. The decoder keeps what it holds of a character between two calls,
    so the cuts in a stream of bytes do not show in the text (`decodeFrom_append`); what was encoded
    is decoded (`toText_utf8`). -/

namespace Truyn

/-- The bits of a character that is not complete, how many bytes it misses, and the bounds of the
    next one. -/
inductive Pending
  | idle
  | char (bits missing lo hi : ℕ)
  deriving DecidableEq

/-- The code units of a code point. -/
def codePoint (n : ℕ) : JsString :=
  if n < 0x10000 then [UInt16.ofNat n]
  else [UInt16.ofNat (0xD800 + (n - 0x10000) / 0x400), UInt16.ofNat (0xDC00 + (n - 0x10000) % 0x400)]

/-- The first byte of a character. -/
def firstByte (b : UInt8) : JsString × Pending :=
  let n := b.toNat
  if n < 0x80 then ([UInt16.ofNat n], .idle)
  else if 0xC2 ≤ n ∧ n ≤ 0xDF then ([], .char (n - 0xC0) 1 0x80 0xBF)
  else if 0xE0 ≤ n ∧ n ≤ 0xEF then
    -- no longer forms than needed, and no surrogates
    ([], .char (n - 0xE0) 2 (if n = 0xE0 then 0xA0 else 0x80) (if n = 0xED then 0x9F else 0xBF))
  else if 0xF0 ≤ n ∧ n ≤ 0xF4 then
    ([], .char (n - 0xF0) 3 (if n = 0xF0 then 0x90 else 0x80) (if n = 0xF4 then 0x8F else 0xBF))
  else ([0xFFFD], .idle)

def nextByte : Pending → UInt8 → JsString × Pending
  | .idle, b => firstByte b
  | .char bits missing lo hi, b =>
    if b.toNat < lo ∨ hi < b.toNat then (0xFFFD :: (firstByte b).1, (firstByte b).2)
    else
      let bits := bits * 64 + (b.toNat - 0x80)
      if missing ≤ 1 then (codePoint bits, .idle) else ([], .char bits (missing - 1) 0x80 0xBF)

/-- The text of these bytes, and what is held back. -/
def decodeFrom : Pending → List UInt8 → JsString × Pending
  | p, [] => ([], p)
  | p, b :: bytes =>
    let r := decodeFrom (nextByte p b).2 bytes
    ((nextByte p b).1 ++ r.1, r.2)

/-- The end of the stream, inside a character or not. -/
def Pending.flush : Pending → JsString
  | .idle => []
  | .char .. => [0xFFFD]

/-- `buffer.toString('utf8')`. -/
def toText (bytes : List UInt8) : JsString :=
  (decodeFrom .idle bytes).1 ++ (decodeFrom .idle bytes).2.flush

example : toText [0xF0, 0x9F, 0x98, 0x80, 0xF0, 0x9F, 0x61, 0xC0] = js "😀�a�" := by decide

theorem decodeFrom_append (p : Pending) (x y : List UInt8) :
    decodeFrom p (x ++ y) = ((decodeFrom p x).1 ++ (decodeFrom (decodeFrom p x).2 y).1,
      (decodeFrom (decodeFrom p x).2 y).2) := by
  induction x generalizing p with
  | nil => rfl
  | cons b x ih => simp [decodeFrom, ih]

/-! ### What was encoded -/

theorem tailByte_toNat (n k : ℕ) : (tailByte n k).toNat = 0x80 + n / 2 ^ k % 64 := by
  have hlt : n / 2 ^ k % 64 < 64 := Nat.mod_lt _ (by decide)
  rw [tailByte, UInt8.toNat_ofNat', Nat.mod_eq_of_lt (by omega)]

/-- A continuation byte within its bounds. -/
theorem nextByte_tail {bits missing lo hi n k : ℕ} (hlo : lo ≤ 0x80 + n / 2 ^ k % 64)
    (hhi : 0x80 + n / 2 ^ k % 64 ≤ hi) : nextByte (.char bits missing lo hi) (tailByte n k) =
      if missing ≤ 1 then (codePoint (bits * 64 + n / 2 ^ k % 64), .idle)
      else ([], .char (bits * 64 + n / 2 ^ k % 64) (missing - 1) 0x80 0xBF) := by
  rw [nextByte, tailByte_toNat, if_neg (by omega)]
  simp

theorem decodeFrom_unit {u : UInt16} (hhigh : isHigh u = false) (hlow : isLow u = false) :
    decodeFrom .idle (unitUtf8 u) = ([u], .idle) := by
  have hu := u.toNat_lt
  have hback : codePoint u.toNat = [u] := by
    rw [codePoint, if_pos (by omega), UInt16.ofNat_toNat]
  simp only [unitUtf8]
  split
  · next h =>
    have hn : (UInt8.ofNat u.toNat).toNat = u.toNat := by
      rw [UInt8.toNat_ofNat', Nat.mod_eq_of_lt (by omega)]
    simp only [decodeFrom, nextByte, firstByte, hn]
    rw [if_pos h, UInt16.ofNat_toNat]
    rfl
  split
  · next h h' =>
    have hn : (UInt8.ofNat (0xC0 + u.toNat / 64)).toNat = 0xC0 + u.toNat / 64 := by
      rw [UInt8.toNat_ofNat', Nat.mod_eq_of_lt (by omega)]
    have hfirst : firstByte (UInt8.ofNat (0xC0 + u.toNat / 64)) =
        ([], .char (u.toNat / 64) 1 0x80 0xBF) := by
      simp only [firstByte, hn]
      rw [if_neg (by omega), if_pos (by omega), Nat.add_sub_cancel_left]
    have hbits : u.toNat / 64 * 64 + u.toNat / 2 ^ 0 % 64 = u.toNat := by omega
    simp only [decodeFrom, nextByte.eq_1, hfirst]
    rw [nextByte_tail (by omega) (by omega), if_pos (by decide), hbits, hback]
    rfl
  split
  · next h => simp [hhigh, hlow] at h
  · next h h' _ =>
    have hplain : u.toNat < 0xD800 ∨ 0xDFFF < u.toNat := by
      simp only [isHigh, isLow, decide_eq_false_iff_not, UInt16.le_iff_toNat_le] at hhigh hlow
      have hhigh' : ¬(0xD800 ≤ u.toNat ∧ u.toNat ≤ 0xDBFF) := hhigh
      have hlow' : ¬(0xDC00 ≤ u.toNat ∧ u.toNat ≤ 0xDFFF) := hlow
      omega
    have hn : (UInt8.ofNat (0xE0 + u.toNat / 4096)).toNat = 0xE0 + u.toNat / 4096 := by
      rw [UInt8.toNat_ofNat', Nat.mod_eq_of_lt (by omega)]
    have hfirst : firstByte (UInt8.ofNat (0xE0 + u.toNat / 4096)) =
        ([], .char (u.toNat / 4096) 2 (if 0xE0 + u.toNat / 4096 = 0xE0 then 0xA0 else 0x80)
          (if 0xE0 + u.toNat / 4096 = 0xED then 0x9F else 0xBF)) := by
      simp only [firstByte, hn]
      rw [if_neg (by omega), if_neg (by omega), if_pos (by omega), Nat.add_sub_cancel_left]
    have hbits : (u.toNat / 4096 * 64 + u.toNat / 2 ^ 6 % 64) * 64 + u.toNat / 2 ^ 0 % 64 =
        u.toNat := by omega
    simp only [decodeFrom, nextByte.eq_1, hfirst]
    rw [nextByte_tail (by split <;> omega) (by split <;> omega), if_neg (by decide),
      nextByte_tail (by omega) (by omega), if_pos (by decide), hbits, hback]
    rfl

/-- The second byte of four is within the bounds that the first one sets. -/
theorem fourth_bounds {n : ℕ} (hlo : 0x10000 ≤ n) (hhi : n < 0x110000) :
    (if 0xF0 + n / 2 ^ 18 = 0xF0 then 0x90 else 0x80) ≤ 0x80 + n / 2 ^ 12 % 64 ∧
      0x80 + n / 2 ^ 12 % 64 ≤ (if 0xF0 + n / 2 ^ 18 = 0xF4 then 0x8F else 0xBF) := by
  constructor <;> split <;> omega

theorem decodeFrom_four {n : ℕ} (hlo : 0x10000 ≤ n) (hhi : n < 0x110000) :
    decodeFrom .idle [UInt8.ofNat (0xF0 + n / 2 ^ 18), tailByte n 12, tailByte n 6, tailByte n 0] =
      (codePoint n, .idle) := by
  have hbyte : (UInt8.ofNat (0xF0 + n / 2 ^ 18)).toNat = 0xF0 + n / 2 ^ 18 := by
    rw [UInt8.toNat_ofNat', Nat.mod_eq_of_lt (by omega)]
  have hfirst : firstByte (UInt8.ofNat (0xF0 + n / 2 ^ 18)) =
      ([], .char (n / 2 ^ 18) 3 (if 0xF0 + n / 2 ^ 18 = 0xF0 then 0x90 else 0x80)
        (if 0xF0 + n / 2 ^ 18 = 0xF4 then 0x8F else 0xBF)) := by
    simp only [firstByte, hbyte]
    rw [if_neg (by omega), if_neg (by omega), if_neg (by omega), if_pos (by omega),
      Nat.add_sub_cancel_left]
  have hbits : ((n / 2 ^ 18 * 64 + n / 2 ^ 12 % 64) * 64 + n / 2 ^ 6 % 64) * 64 + n / 2 ^ 0 % 64 =
      n := by omega
  obtain ⟨hleast, hmost⟩ := fourth_bounds hlo hhi
  simp only [decodeFrom, nextByte.eq_1, hfirst]
  rw [nextByte_tail hleast hmost, if_neg (by decide), nextByte_tail (by omega) (by omega),
    if_neg (by decide), nextByte_tail (by omega) (by omega), if_pos (by decide), hbits]
  exact congrArg (·, Pending.idle) (List.append_nil _)

theorem decodeFrom_pair {u v : UInt16} (hu : isHigh u = true) (hv : isLow v = true) :
    decodeFrom .idle (pairUtf8 u v) = ([u, v], .idle) := by
  simp only [isHigh, isLow, decide_eq_true_eq, UInt16.le_iff_toNat_le] at hu hv
  obtain ⟨hu1, hu2⟩ : 0xD800 ≤ u.toNat ∧ u.toNat ≤ 0xDBFF := hu
  obtain ⟨hv1, hv2⟩ : 0xDC00 ≤ v.toNat ∧ v.toNat ≤ 0xDFFF := hv
  simp only [pairUtf8]
  generalize hn : 0x10000 + (u.toNat - 0xD800) * 0x400 + (v.toNat - 0xDC00) = n
  have hleft : 0xD800 + (n - 0x10000) / 0x400 = u.toNat := by omega
  have hright : 0xDC00 + (n - 0x10000) % 0x400 = v.toNat := by omega
  rw [decodeFrom_four (by omega) (by omega), codePoint, if_neg (by omega), hleft, hright,
    UInt16.ofNat_toNat, UInt16.ofNat_toNat]

/-- By induction on the length, a character at a time. -/
theorem decodeFrom_utf8 {s : JsString} (h : checkUnicode s = true) :
    decodeFrom .idle (utf8 s) = (s, .idle) := by
  induction hn : s.length using Nat.strongRecOn generalizing s with
  | ind n ih =>
    subst hn
    match s, h with
    | [], _ => rfl
    | [u], h =>
      simp only [checkUnicode, Bool.and_eq_true, Bool.not_eq_true'] at h
      exact decodeFrom_unit h.1 h.2
    | u :: v :: s, h =>
      rw [checkUnicode] at h
      by_cases hu : isHigh u = true
      · rw [if_pos hu, Bool.and_eq_true] at h
        rw [utf8, if_pos (by simp [hu, h.1]), decodeFrom_append, decodeFrom_pair hu h.1,
          ih s.length (by simp) h.2 rfl]
        rfl
      · rw [if_neg hu, Bool.and_eq_true, Bool.not_eq_true'] at h
        rw [utf8, if_neg (by simp [hu]), decodeFrom_append,
          decodeFrom_unit (Bool.eq_false_iff.mpr hu) h.1, ih (v :: s).length (by simp) h.2 rfl]
        rfl

theorem toText_utf8 {s : JsString} (h : checkUnicode s = true) : toText (utf8 s) = s := by
  rw [toText, decodeFrom_utf8 h]
  exact List.append_nil s

end Truyn
