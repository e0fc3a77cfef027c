import Truyn.Js.Unique
import Truyn.Schemes.Checks

/-! network:stun | stun.js: the address in a binding response

    The attributes of a response follow each other at lengths that the sender chooses. `attributes` lists
    those that lie inside the packet and its declared length; the parser gives the first XOR-MAPPED-ADDRESS
    among them that can be decoded, else the first MAPPED-ADDRESS (`parseBindingResponse_eq`), and what
    was encoded by the XOR rule is decoded, to a text that writes the very address
    (`binding_response`). -/

namespace Truyn.Stun

def STUN_BINDING_SUCCESS : ℕ := 0x0101
def STUN_ATTR_MAPPED_ADDRESS : ℕ := 0x0001
def STUN_ATTR_XOR_MAPPED_ADDRESS : ℕ := 0x0020

/-- `STUN_MAGIC_COOKIE`, as it is written into a packet. -/
def cookieBytes : List UInt8 := [0x21, 0x12, 0xa4, 0x42]

inductive Family
  | IPv4
  | IPv6
  deriving DecidableEq

structure MappedAddress where
  family : Family
  address : JsString
  port : UInt16
  deriving DecidableEq

/-! ### The parser -/

def uint16 (hi lo : UInt8) : UInt16 := UInt16.ofNat (hi.toNat * 256 + lo.toNat)

/-- Outside of the buffer this throws. -/
def readUInt16BE (packet : List UInt8) (offset : ℕ) : Except String ℕ :=
  match packet[offset]?, packet[offset + 1]? with
  | some hi, some lo => .ok (uint16 hi lo).toNat
  | _, _ => .error "ERR_OUT_OF_RANGE"

def readUInt32BE (packet : List UInt8) (offset : ℕ) : Except String ℕ := do
  let hi ← readUInt16BE packet offset
  let lo ← readUInt16BE packet (offset + 2)
  pure (hi * 65536 + lo)

/-- `n.toString(16)`, for a word. -/
def hexNumeral (n : ℕ) : JsString :=
  ([n / 4096, n / 256 % 16, n / 16 % 16].dropWhile fun d => d = 0).map hexDigit ++ [hexDigit (n % 16)]

def join (separator : UInt16) (parts : List JsString) : JsString := [separator].intercalate parts

/-- `[...bytes].join('.')`. -/
def ipv4Text (bytes : List UInt8) : JsString := join 46 (bytes.map fun b => numeral b.toNat)

/-- The words of an address. -/
def words : List UInt8 → List UInt16
  | hi :: lo :: bytes => uint16 hi lo :: words bytes
  | _ => []

/-- `words.join(':')`. -/
def ipv6Text (bytes : List UInt8) : JsString := join 58 ((words bytes).map fun w => hexNumeral w.toNat)

/-- `bytes[i] ^= mask[i]`. -/
def unmask (xor : Bool) (bytes mask : List UInt8) : List UInt8 :=
  if xor then bytes.zipWith (· ^^^ ·) mask else bytes

def decodeAddress (attributeType : ℕ) (value transactionId : List UInt8) : Option MappedAddress :=
  match value with
  | zero :: family :: hi :: lo :: rest =>
    if zero ≠ 0 then none
    else
      let xor : Bool := attributeType = STUN_ATTR_XOR_MAPPED_ADDRESS
      let port := if xor then uint16 hi lo ^^^ 0x2112 else uint16 hi lo
      if family = 1 ∧ 4 ≤ rest.length then
        some ⟨.IPv4, ipv4Text (unmask xor (rest.take 4) cookieBytes), port⟩
      else if family = 2 ∧ 16 ≤ rest.length then
        let mask := (cookieBytes ++ transactionId ++ List.replicate 12 0).take 16
        some ⟨.IPv6, ipv6Text (unmask xor (rest.take 16) mask), port⟩
      else none
  | _ => none

def finish : Option MappedAddress → Except String MappedAddress
  | none => .error "STUN response has no mapped address"
  | some mapped => .ok mapped

/-- The loop over the attributes that end before `fin`. -/
def scan (packet transactionId : List UInt8) (fin : ℕ) (mapped : Option MappedAddress) (offset : ℕ) :
    Except String MappedAddress :=
  if offset + 4 ≤ fin then do
    let type ← readUInt16BE packet offset
    let size ← readUInt16BE packet (offset + 2)
    let start := offset + 4
    if fin < start + size then finish mapped
    else
      let value := (packet.drop start).take size
      let decoded :=
        if type = STUN_ATTR_XOR_MAPPED_ADDRESS ∨ mapped = none ∧ type = STUN_ATTR_MAPPED_ADDRESS then
          decodeAddress type value transactionId
        else none
      if type = STUN_ATTR_XOR_MAPPED_ADDRESS ∧ decoded.isSome then finish decoded
      -- `(size + 3) & ~3`
      else scan packet transactionId fin (decoded.or mapped) (start + (size + 3) / 4 * 4)
  else finish mapped
termination_by fin - offset

def parseBindingResponse (packet transactionId : List UInt8) : Except String MappedAddress :=
  if packet.length < 20 then .error "STUN response is too short"
  else do
    let type ← readUInt16BE packet 0
    if type ≠ STUN_BINDING_SUCCESS then .error "STUN response is not binding success"
    else do
      let cookie ← readUInt32BE packet 4
      if cookie ≠ 0x2112a442 then .error "STUN magic cookie mismatch"
      else if (packet.drop 8).take 12 ≠ transactionId then .error "STUN transaction mismatch"
      else do
        let length ← readUInt16BE packet 2
        scan packet transactionId (min packet.length (20 + length)) none 20

/-! ### Attributes -/

/-- The attributes in these bytes, up to the first one that they do not hold. -/
def attributes (bytes : List UInt8) : List (ℕ × List UInt8) :=
  match bytes with
  | t :: t' :: n :: n' :: rest =>
    let size := (uint16 n n').toNat
    if rest.length < size then []
    else ((uint16 t t').toNat, rest.take size) :: attributes (rest.drop ((size + 3) / 4 * 4))
  | _ => []
termination_by bytes.length
decreasing_by
  simp only [List.length_drop, List.length_cons]
  omega

/-- The first attribute of a type that can be decoded. -/
def firstOf (type : ℕ) (transactionId : List UInt8) (l : List (ℕ × List UInt8)) :
    Option MappedAddress :=
  l.findSome? fun a => if a.1 = type then decodeAddress type a.2 transactionId else none

variable {packet rest transactionId : List UInt8}

variable {hi lo t t' n n' : UInt8} {offset fin : ℕ} {other : List UInt8}

theorem readUInt16BE_drop (h : packet.drop offset = hi :: lo :: rest) :
    readUInt16BE packet offset = .ok (uint16 hi lo).toNat := by
  have hhi : packet[offset]? = some hi := by
    rw [← Nat.add_zero offset, ← List.getElem?_drop, h]
    rfl
  have hlo : packet[offset + 1]? = some lo := by
    rw [← List.getElem?_drop, h]
    rfl
  rw [readUInt16BE, hhi, hlo]

/-- The header of the attribute at an offset, and the bytes after it. -/
theorem exists_header (hfin : fin ≤ packet.length) (h : offset + 4 ≤ fin) :
    ∃ t t' n n' rest,
      (packet.take fin).drop offset = t :: t' :: n :: n' :: rest ∧
        (packet.take fin).drop (offset + 4) = rest ∧
        packet.drop offset = t :: t' :: n :: n' :: (rest ++ packet.drop fin) := by
  have hlen : ((packet.take fin).drop offset).length = fin - offset := by
    rw [List.length_drop, List.length_take, min_eq_left hfin]
  have hall : packet.drop offset = (packet.take fin).drop offset ++ packet.drop fin := by
    conv_lhs => rw [← List.take_append_drop fin packet]
    refine List.drop_append_of_le_length ?_
    rw [List.length_take, min_eq_left hfin]
    omega
  obtain ⟨t, t', n, n', rest, hl⟩ : ∃ t t' n n' rest,
      (packet.take fin).drop offset = t :: t' :: n :: n' :: rest := by
    match hm : (packet.take fin).drop offset with
    | t :: t' :: n :: n' :: rest => exact ⟨t, t', n, n', rest, rfl⟩
    | [] | [_] | [_, _] | [_, _, _] =>
      rw [hm] at hlen
      simp only [List.length_cons, List.length_nil] at hlen
      omega
  refine ⟨t, t', n, n', rest, hl, ?_, ?_⟩
  · rw [← List.drop_drop, hl]
    rfl
  · rw [hall, hl]
    rfl

theorem attributes_cons (h : (uint16 n n').toNat ≤ rest.length) :
    attributes (t :: t' :: n :: n' :: rest) =
      ((uint16 t t').toNat, rest.take (uint16 n n').toNat) ::
        attributes (rest.drop (((uint16 n n').toNat + 3) / 4 * 4)) := by
  rw [attributes]
  exact if_neg (Nat.not_lt.mpr h)

theorem attributes_short (h : rest.length < (uint16 n n').toNat) :
    attributes (t :: t' :: n :: n' :: rest) = [] := by
  rw [attributes]
  exact if_pos h

theorem attributes_of_lt {bytes : List UInt8} (h : bytes.length < 4) : attributes bytes = [] := by
  match bytes with
  | [] | [_] | [_, _] | [_, _, _] => rw [attributes]; simp
  | _ :: _ :: _ :: _ :: _ =>
    simp only [List.length_cons] at h
    omega

/-- The loop gives the first XOR-MAPPED-ADDRESS to come, else what it has, else the first
MAPPED-ADDRESS. -/
theorem scan_eq (hfin : fin ≤ packet.length) (mapped : Option MappedAddress) (offset : ℕ) :
    scan packet transactionId fin mapped offset =
      finish ((firstOf STUN_ATTR_XOR_MAPPED_ADDRESS transactionId
          (attributes ((packet.take fin).drop offset))).or
        (mapped.or (firstOf STUN_ATTR_MAPPED_ADDRESS transactionId
          (attributes ((packet.take fin).drop offset))))) := by
  induction hk : fin - offset using Nat.strongRecOn generalizing mapped offset with
  | ind k ih =>
    rw [scan]
    by_cases hoff : offset + 4 ≤ fin
    · rw [if_pos hoff]
      obtain ⟨t, t', n, n', rest, hl, hrest, hdrop⟩ := exists_header hfin hoff
      have hdrop2 : packet.drop (offset + 2) = n :: n' :: (rest ++ packet.drop fin) := by
        rw [← List.drop_drop, hdrop]
        rfl
      have hdrop4 : packet.drop (offset + 4) = rest ++ packet.drop fin := by
        rw [← List.drop_drop, hdrop]
        rfl
      have hlen : rest.length = fin - (offset + 4) := by
        rw [← hrest, List.length_drop, List.length_take, min_eq_left hfin]
      rw [readUInt16BE_drop hdrop, readUInt16BE_drop hdrop2, hl]
      show (if fin < offset + 4 + (uint16 n n').toNat then finish mapped else _) = _
      by_cases hsize : fin < offset + 4 + (uint16 n n').toNat
      · have hshort : rest.length < (uint16 n n').toNat := by omega
        rw [if_pos hsize, attributes_short hshort]
        cases mapped <;> rfl
      · have hroom : (uint16 n n').toNat ≤ rest.length := by omega
        have hvalue : (packet.drop (offset + 4)).take (uint16 n n').toNat =
            rest.take (uint16 n n').toNat := by
          rw [hdrop4]
          exact List.take_append_of_le_length hroom
        have htail : (packet.take fin).drop (offset + 4 + ((uint16 n n').toNat + 3) / 4 * 4) =
            rest.drop (((uint16 n n').toNat + 3) / 4 * 4) := by
          rw [← hrest, List.drop_drop]
        rw [if_neg hsize, hvalue, attributes_cons hroom]
        have ih' := fun m => ih _ (by omega) m
          (offset + 4 + ((uint16 n n').toNat + 3) / 4 * 4) rfl
        rw [htail] at ih'
        simp only [ih', firstOf, List.findSome?_cons]
        generalize (uint16 t t').toNat = type
        generalize rest.take (uint16 n n').toNat = value
        by_cases hxor : type = STUN_ATTR_XOR_MAPPED_ADDRESS
        · subst hxor
          cases decodeAddress STUN_ATTR_XOR_MAPPED_ADDRESS value transactionId with
          | none => simp [STUN_ATTR_XOR_MAPPED_ADDRESS, STUN_ATTR_MAPPED_ADDRESS]
          | some a => simp [STUN_ATTR_XOR_MAPPED_ADDRESS, STUN_ATTR_MAPPED_ADDRESS]
        · by_cases hmapped : type = STUN_ATTR_MAPPED_ADDRESS
          · subst hmapped
            -- a first MAPPED-ADDRESS is kept, but one of the other type may still come
            cases mapped with
            | none =>
              cases decodeAddress STUN_ATTR_MAPPED_ADDRESS value transactionId <;>
                simp [STUN_ATTR_XOR_MAPPED_ADDRESS, STUN_ATTR_MAPPED_ADDRESS]
            | some a => simp [STUN_ATTR_XOR_MAPPED_ADDRESS, STUN_ATTR_MAPPED_ADDRESS]
          · simp [hxor, hmapped]
    · rw [if_neg hoff]
      have hlt : ((packet.take fin).drop offset).length < 4 := by
        rw [List.length_drop, List.length_take, min_eq_left hfin]
        omega
      rw [attributes_of_lt hlt]
      cases mapped <;> rfl

/-- The length that the header declares. -/
def declared (packet : List UInt8) : ℕ := (uint16 (packet.getD 2 0) (packet.getD 3 0)).toNat

/-- What lies after the header, inside the packet and its declared length. -/
def body (packet : List UInt8) : List UInt8 := (packet.take (20 + declared packet)).drop 20

/-- The address of a response, by its attributes alone. -/
def firstAddress (packet transactionId : List UInt8) : Except String MappedAddress :=
  if packet.length < 20 then .error "STUN response is too short"
  else if packet.take 2 ≠ [1, 1] then .error "STUN response is not binding success"
  else if (packet.drop 4).take 4 ≠ cookieBytes then .error "STUN magic cookie mismatch"
  else if (packet.drop 8).take 12 ≠ transactionId then .error "STUN transaction mismatch"
  else
    let found := attributes (body packet)
    finish ((firstOf STUN_ATTR_XOR_MAPPED_ADDRESS transactionId found).or
      (firstOf STUN_ATTR_MAPPED_ADDRESS transactionId found))

theorem uint16_toNat (hi lo : UInt8) : (uint16 hi lo).toNat = hi.toNat * 256 + lo.toNat := by
  have := hi.toNat_lt
  have := lo.toNat_lt
  rw [uint16, UInt16.toNat_ofNat', Nat.mod_eq_of_lt]
  omega

theorem uint16_eq_iff {n : ℕ} (h : n < 65536) :
    (uint16 hi lo).toNat = n ↔ [hi, lo] = [UInt8.ofNat (n / 256), UInt8.ofNat (n % 256)] := by
  have hhi := hi.toNat_lt
  have hlo := lo.toNat_lt
  rw [uint16_toNat, List.cons.injEq, List.cons.injEq, ← UInt8.toNat_inj, ← UInt8.toNat_inj,
    UInt8.toNat_ofNat', UInt8.toNat_ofNat']
  constructor
  · intro he
    refine ⟨?_, ?_, rfl⟩ <;> omega
  · rintro ⟨h1, h2, -⟩
    omega

theorem cookie_eq_iff {a b c d : UInt8} :
    (uint16 a b).toNat * 65536 + (uint16 c d).toNat = 0x2112a442 ↔ [a, b, c, d] = cookieBytes := by
  have hcd := (uint16 c d).toNat_lt
  have hsplit : (uint16 a b).toNat * 65536 + (uint16 c d).toNat = 0x2112a442 ↔
      (uint16 a b).toNat = 0x2112 ∧ (uint16 c d).toNat = 0xa442 := by
    omega
  rw [hsplit, uint16_eq_iff (by decide), uint16_eq_iff (by decide)]
  simp [cookieBytes, and_assoc]

/-- The parser finds what the attributes say. -/
theorem parseBindingResponse_eq (packet transactionId : List UInt8) :
    parseBindingResponse packet transactionId = firstAddress packet transactionId := by
  by_cases hlen : packet.length < 20
  · rw [parseBindingResponse, firstAddress, if_pos hlen, if_pos hlen]
  · obtain ⟨a0, a1, a2, a3, a4, a5, a6, a7, rest, rfl⟩ : ∃ a0 a1 a2 a3 a4 a5 a6 a7 rest,
        packet = a0 :: a1 :: a2 :: a3 :: a4 :: a5 :: a6 :: a7 :: rest := by
      match packet with
      | a0 :: a1 :: a2 :: a3 :: a4 :: a5 :: a6 :: a7 :: rest =>
        exact ⟨a0, a1, a2, a3, a4, a5, a6, a7, rest, rfl⟩
      | [] | [_] | [_, _] | [_, _, _] | [_, _, _, _] | [_, _, _, _, _] | [_, _, _, _, _, _]
      | [_, _, _, _, _, _, _] =>
        simp only [List.length_cons, List.length_nil] at hlen
        omega
    set packet := a0 :: a1 :: a2 :: a3 :: a4 :: a5 :: a6 :: a7 :: rest with hpacket
    have h0 : readUInt16BE packet 0 = .ok (uint16 a0 a1).toNat := rfl
    have h2 : readUInt16BE packet 2 = .ok (uint16 a2 a3).toNat := rfl
    have h4 : readUInt32BE packet 4 =
      .ok ((uint16 a4 a5).toNat * 65536 + (uint16 a6 a7).toNat) := rfl
    have hscan : scan packet transactionId (min packet.length (20 + (uint16 a2 a3).toNat)) none 20 =
        finish ((firstOf STUN_ATTR_XOR_MAPPED_ADDRESS transactionId (attributes (body packet))).or
          (firstOf STUN_ATTR_MAPPED_ADDRESS transactionId (attributes (body packet)))) := by
      have htake : packet.take (min packet.length (20 + (uint16 a2 a3).toNat)) =
          packet.take (20 + declared packet) := by
        rw [← List.take_take, List.take_of_length_le (List.length_take_le' _ _)]
        rfl
      rw [scan_eq (min_le_left _ _), htake]
      rfl
    have htype : (uint16 a0 a1).toNat ≠ STUN_BINDING_SUCCESS ↔ packet.take 2 ≠ [1, 1] :=
      not_congr (uint16_eq_iff (by decide))
    have hcookie : (uint16 a4 a5).toNat * 65536 + (uint16 a6 a7).toNat ≠ 0x2112a442 ↔
      (packet.drop 4).take 4 ≠ cookieBytes := not_congr cookie_eq_iff
    rw [parseBindingResponse, firstAddress, if_neg hlen, if_neg hlen, h0, h2, h4]
    show (if (uint16 a0 a1).toNat ≠ STUN_BINDING_SUCCESS then _
      else if (uint16 a4 a5).toNat * 65536 + (uint16 a6 a7).toNat ≠ 0x2112a442 then _
      else if (packet.drop 8).take 12 ≠ transactionId then _
      else scan packet transactionId (min packet.length (20 + (uint16 a2 a3).toNat)) none 20) = _
    simp only [htype, hcookie, hscan]

/-- Bytes after the declared length change nothing. -/
theorem body_congr (h : other.take (20 + declared packet) = packet.take (20 + declared packet)) :
    body other = body packet := by
  have hget : ∀ i < 20, other.getD i 0 = packet.getD i 0 := by
    intro i hi
    have hi' : i < 20 + declared packet := by omega
    have := congrArg (fun l => l.getD i 0) h
    simpa [List.getD_eq_getElem?_getD, List.getElem?_take, hi'] using this
  have hdeclared : declared other = declared packet := by
    rw [declared, declared, hget 2 (by decide), hget 3 (by decide)]
  rw [body, body, hdeclared, h]

theorem firstAddress_congr (transactionId : List UInt8)
    (h : other.take (20 + declared packet) = packet.take (20 + declared packet)) :
    firstAddress other transactionId = firstAddress packet transactionId := by
  have htake : ∀ k ≤ 20, other.take k = packet.take k := by
    intro k hk
    have := congrArg (List.take k) h
    rwa [List.take_take, List.take_take, min_eq_left (by omega)] at this
  have hlen : other.length < 20 ↔ packet.length < 20 := by
    have := congrArg List.length (htake 20 le_rfl)
    rw [List.length_take, List.length_take] at this
    omega
  have hmid : ∀ i k, i + k ≤ 20 → (other.drop i).take k = (packet.drop i).take k := by
    intro i k hik
    rw [List.take_drop, List.take_drop, htake _ hik]
  simp only [firstAddress, hlen, body_congr h, htake 2 (by decide), hmid 4 4 (by decide),
    hmid 8 12 (by decide)]

/-! ### Responses -/

/-- The two bytes of a word. -/
def bytes16 (w : UInt16) : List UInt8 := [UInt8.ofNat (w.toNat / 256), UInt8.ofNat (w.toNat % 256)]

theorem uint16_bytes16 (w : UInt16) :
    uint16 (UInt8.ofNat (w.toNat / 256)) (UInt8.ofNat (w.toNat % 256)) = w :=
  UInt16.toNat_inj.mp ((uint16_eq_iff w.toNat_lt).mpr rfl)

structure Address where
  family : Family
  bytes : List UInt8
  size : bytes.length = match family with
    | .IPv4 => 4
    | .IPv6 => 16

def Address.text (a : Address) : JsString :=
  match a.family with
  | .IPv4 => ipv4Text a.bytes
  | .IPv6 => ipv6Text a.bytes

/-! ### What a text writes -/

def hexadecimalValue (s : JsString) : ℕ := s.foldl (fun v u => 16 * v + hexValue u) 0

/-- The address that a text writes: decimal bytes between dots, or hexadecimal words between colons. -/
def readAddress : Family → JsString → List UInt8
  | .IPv4, s => (s.splitOn 46).map fun part => UInt8.ofNat (numeralValue part)
  | .IPv6, s => (s.splitOn 58).flatMap fun part => bytes16 (UInt16.ofNat (hexadecimalValue part))

theorem hexDigit_ne_colon {d : ℕ} (h : d < 16) : hexDigit d ≠ 58 := by
  have hall : ∀ d : Fin 16, hexDigit d ≠ 58 := by decide
  exact hall ⟨d, h⟩

/-- Zeros at the front do not count. -/
theorem hexadecimalValue_digits {l : List ℕ} (h : ∀ d ∈ l, d < 16) :
    hexadecimalValue ((l.dropWhile fun d => d = 0).map hexDigit) =
      l.foldl (fun v d => 16 * v + d) 0 := by
  have hfold : ∀ l : List ℕ, (∀ d ∈ l, d < 16) → ∀ v,
      (l.map hexDigit).foldl (fun v u => 16 * v + hexValue u) v =
        l.foldl (fun v d => 16 * v + d) v := by
    intro l
    induction l with
    | nil => exact fun _ _ => rfl
    | cons d l ih =>
      intro h v
      obtain ⟨hd, hl⟩ := List.forall_mem_cons.mp h
      rw [List.map_cons, List.foldl_cons, List.foldl_cons, hexValue_hexDigit hd, ih hl]
  rw [hexadecimalValue, hfold _ fun d hd => h d ((List.dropWhile_sublist _).subset hd)]
  induction l with
  | nil => rfl
  | cons d l ih =>
    by_cases hd : d = 0
    · subst hd
      simpa using ih fun d hd => h d (List.mem_cons_of_mem _ hd)
    · simp [hd]

theorem hexNumeral_digits {n : ℕ} (h : n < 65536) :
    58 ∉ hexNumeral n ∧ hexadecimalValue (hexNumeral n) = n := by
  have hdigits : ∀ d ∈ [n / 4096, n / 256 % 16, n / 16 % 16], d < 16 := by
    intro d hd
    simp only [List.mem_cons, List.not_mem_nil, or_false] at hd
    omega
  constructor
  · intro hmem
    rcases List.mem_append.mp hmem with hmem | hmem
    · obtain ⟨d, hd, hcolon⟩ := List.mem_map.mp hmem
      exact hexDigit_ne_colon (hdigits d ((List.dropWhile_sublist _).subset hd)) hcolon
    · exact hexDigit_ne_colon (Nat.mod_lt n (by decide)) (List.mem_singleton.mp hmem).symm
  · have hvalue := hexadecimalValue_digits hdigits
    rw [hexadecimalValue] at hvalue
    rw [hexNumeral, hexadecimalValue, List.foldl_append, hvalue]
    simp only [List.foldl_cons, List.foldl_nil, hexValue_hexDigit (Nat.mod_lt n (by decide : 0 < 16))]
    omega

theorem bytes16_words : ∀ l : List UInt8, l.length % 2 = 0 → (words l).flatMap bytes16 = l
  | [], _ => rfl
  | [_], h => by cases h
  | hi :: lo :: l, h => by
    have hpair := (uint16_eq_iff (uint16 hi lo).toNat_lt).mp rfl
    have heven : l.length % 2 = 0 := by
      simp only [List.length_cons] at h
      omega
    rw [words, List.flatMap_cons, bytes16_words l heven, bytes16, ← hpair]
    rfl

/-- The text of an address writes that address. -/
theorem readAddress_text (a : Address) : readAddress a.family a.text = a.bytes := by
  obtain ⟨family, l, hl⟩ := a
  have hne : l ≠ [] := by
    rintro rfl
    cases family <;> cases hl
  cases family with
  | IPv4 =>
    have hdots : ∀ part ∈ l.map (fun b => numeral b.toNat), (46 : UInt16) ∉ part := by
      intro part hpart hdot
      obtain ⟨b, -, rfl⟩ := List.mem_map.mp hpart
      exact absurd (numeral_digits _ _ hdot).1 (by decide)
    rw [readAddress, Address.text, ipv4Text, join, List.splitOn_intercalate 46 hdots (by simpa using hne)]
    simp [Function.comp_def]
  | IPv6 =>
    have hcolons : ∀ part ∈ (words l).map (fun w => hexNumeral w.toNat), (58 : UInt16) ∉ part := by
      intro part hpart
      obtain ⟨w, -, rfl⟩ := List.mem_map.mp hpart
      exact (hexNumeral_digits w.toNat_lt).1
    have hwords := bytes16_words l (by rw [show l.length = 16 from hl])
    have hsome : words l ≠ [] := by
      intro hnil
      rw [hnil] at hwords
      exact hne hwords.symm
    rw [readAddress, Address.text, ipv6Text, join,
      List.splitOn_intercalate 58 hcolons (by simpa using hsome), List.flatMap_map]
    simpa only [(hexNumeral_digits (UInt16.toNat_lt _)).2, UInt16.ofNat_toNat] using hwords

/-- An attribute as it is sent: its value is padded to whole words, with any bytes. -/
structure Attribute where
  type : UInt16
  value : List UInt8
  padding : List UInt8
  fits : value.length < 65536
  aligned : value.length + padding.length = (value.length + 3) / 4 * 4

def Attribute.encode (a : Attribute) : List UInt8 :=
  bytes16 a.type ++ bytes16 (UInt16.ofNat a.value.length) ++ a.value ++ a.padding

/-- An address by the XOR rule. -/
def xorValue (a : Address) (port : UInt16) (transactionId : List UInt8) : List UInt8 :=
  [(0 : UInt8), match a.family with | .IPv4 => 1 | .IPv6 => 2] ++ bytes16 (port ^^^ 0x2112) ++
    a.bytes.zipWith (· ^^^ ·) (cookieBytes ++ transactionId)

def response (transactionId : List UInt8) (l : List Attribute) : List UInt8 :=
  bytes16 0x0101 ++ bytes16 (UInt16.ofNat (l.flatMap Attribute.encode).length) ++ cookieBytes ++
    transactionId ++ l.flatMap Attribute.encode

theorem attributes_encode (l : List Attribute) :
    attributes (l.flatMap Attribute.encode) = l.map fun a => (a.type.toNat, a.value) := by
  induction l with
  | nil => exact attributes_of_lt (by decide)
  | cons a l ih =>
    have hsize : (uint16 (UInt8.ofNat ((UInt16.ofNat a.value.length).toNat / 256))
        (UInt8.ofNat ((UInt16.ofNat a.value.length).toNat % 256))).toNat = a.value.length := by
      rw [uint16_bytes16, UInt16.toNat_ofNat', Nat.mod_eq_of_lt a.fits]
    have hbytes : (a :: l).flatMap Attribute.encode =
        UInt8.ofNat (a.type.toNat / 256) :: UInt8.ofNat (a.type.toNat % 256) ::
        UInt8.ofNat ((UInt16.ofNat a.value.length).toNat / 256) ::
        UInt8.ofNat ((UInt16.ofNat a.value.length).toNat % 256) ::
        (a.value ++ (a.padding ++ l.flatMap Attribute.encode)) := by
      simp [Attribute.encode, bytes16]
    have hdrop : (a.value ++ (a.padding ++ l.flatMap Attribute.encode)).drop
        ((a.value.length + 3) / 4 * 4) = l.flatMap Attribute.encode := by
      rw [← a.aligned, ← List.append_assoc, ← List.length_append, List.drop_left]
    rw [hbytes, attributes_cons, hsize, hdrop, ih, uint16_bytes16, List.take_left, List.map_cons]
    rw [hsize, List.length_append]
    exact Nat.le_add_right _ _

theorem body_response (hid : transactionId.length = 12) {l : List Attribute}
    (hl : (l.flatMap Attribute.encode).length < 65536) (rest : List UInt8) :
    body (response transactionId l ++ rest) = l.flatMap Attribute.encode := by
  have hdeclared : declared (response transactionId l ++ rest) =
      (l.flatMap Attribute.encode).length := by
    show (uint16 (UInt8.ofNat ((UInt16.ofNat (l.flatMap Attribute.encode).length).toNat / 256))
      (UInt8.ofNat ((UInt16.ofNat (l.flatMap Attribute.encode).length).toNat % 256))).toNat = _
    rw [uint16_bytes16, UInt16.toNat_ofNat', Nat.mod_eq_of_lt hl]
  have hlen : (bytes16 0x0101 ++ bytes16 (UInt16.ofNat (l.flatMap Attribute.encode).length) ++
      cookieBytes ++ transactionId).length = 20 := by
    simp [bytes16, cookieBytes, hid]
  have htake : (response transactionId l ++ rest).take
      (20 + (l.flatMap Attribute.encode).length) = response transactionId l := by
    rw [← hlen, ← List.length_append]
    exact List.take_left
  rw [body, hdeclared, htake, ← hlen]
  exact List.drop_left

theorem zipWith_xor_cancel {l m : List UInt8} (h : l.length ≤ m.length) :
    (l.zipWith (· ^^^ ·) m).zipWith (· ^^^ ·) m = l := by
  induction l generalizing m with
  | nil => rfl
  | cons b l ih =>
    cases m with
    | nil => cases h
    | cons c m =>
      have hb : b ^^^ c ^^^ c = b := by
        rw [UInt8.xor_assoc, UInt8.xor_self, UInt8.xor_zero]
      simp only [List.zipWith_cons_cons, hb, ih (Nat.le_of_succ_le_succ h)]

/-- What the XOR rule encodes is decoded. -/
theorem decodeAddress_xorValue (a : Address) (port : UInt16) (hid : transactionId.length = 12) :
    decodeAddress STUN_ATTR_XOR_MAPPED_ADDRESS (xorValue a port transactionId) transactionId =
      some ⟨a.family, a.text, port⟩ := by
  have hport : port ^^^ 0x2112 ^^^ 0x2112 = port := by
    rw [UInt16.xor_assoc, UInt16.xor_self, UInt16.xor_zero]
  have hmask : (cookieBytes ++ transactionId).length = 16 := by
    simp [cookieBytes, hid]
  obtain ⟨family, l, hl⟩ := a
  have hzip : ∀ k ≤ 16, l.length = k →
      (l.zipWith (· ^^^ ·) (cookieBytes ++ transactionId)).length = k := by
    intro k hk hlk
    rw [List.length_zipWith, hmask, hlk, min_eq_left hk]
  cases family with
  | IPv4 =>
    have hlen := hzip 4 (by decide) hl
    have hcookie : l.zipWith (· ^^^ ·) (cookieBytes ++ transactionId) =
        l.zipWith (· ^^^ ·) cookieBytes := by
      have h4 : l.length = cookieBytes.length := hl
      conv_lhs => rw [← List.append_nil l, List.zipWith_append h4]
      simp
    simp only [xorValue, bytes16, List.cons_append, List.nil_append]
    rw [decodeAddress, if_neg (by decide), if_pos ⟨rfl, hlen.ge⟩, List.take_of_length_le hlen.le, hcookie,
      uint16_bytes16]
    simp only [unmask, decide_true, if_true, hport]
    rw [zipWith_xor_cancel (l := l) (m := cookieBytes) hl.le]
    rfl
  | IPv6 =>
    have hlen := hzip 16 le_rfl hl
    have hfull : (cookieBytes ++ transactionId ++ List.replicate 12 0).take 16 =
        cookieBytes ++ transactionId := by
      rw [← hmask]
      exact List.take_left
    simp only [xorValue, bytes16, List.cons_append, List.nil_append]
    rw [decodeAddress, if_neg (by decide), if_neg fun h => absurd h.1 (by decide),
      if_pos ⟨rfl, hlen.ge⟩, List.take_of_length_le hlen.le, hfull, uint16_bytes16]
    simp only [unmask, decide_true, if_true, hport]
    rw [zipWith_xor_cancel (hl.trans hmask.symm).le]
    rfl

/-- The attributes after the first decodable XOR-MAPPED-ADDRESS do not count. -/
theorem firstOf_append {type : ℕ} {l m : List (ℕ × List UInt8)}
    (h : ∀ a ∈ l, a.1 = type → decodeAddress type a.2 transactionId = none) :
    firstOf type transactionId (l ++ m) = firstOf type transactionId m := by
  have hnone : l.findSome? (fun a =>
      if a.1 = type then decodeAddress type a.2 transactionId else none) = none := by
    rw [List.findSome?_eq_none_iff]
    intro a ha
    split_ifs with htype
    · exact h a ha htype
    · rfl
  rw [firstOf, List.findSome?_append, hnone]
  rfl

/-- A response with an XOR-MAPPED-ADDRESS among its attributes, the first that can be decoded. -/
theorem parse_response (hid : transactionId.length = 12) (a : Address) (port : UInt16)
    {x : Attribute} (hx : x.type.toNat = STUN_ATTR_XOR_MAPPED_ADDRESS)
    (hvalue : x.value = xorValue a port transactionId) {before after : List Attribute}
    (hbefore : ∀ y ∈ before, y.type.toNat = STUN_ATTR_XOR_MAPPED_ADDRESS →
      decodeAddress STUN_ATTR_XOR_MAPPED_ADDRESS y.value transactionId = none)
    (hfits : ((before ++ x :: after).flatMap Attribute.encode).length < 65536) (rest : List UInt8) :
    parseBindingResponse (response transactionId (before ++ x :: after) ++ rest) transactionId =
      .ok ⟨a.family, a.text, port⟩ := by
  set l := before ++ x :: after with hl
  have hfound : firstOf STUN_ATTR_XOR_MAPPED_ADDRESS transactionId
      (l.map fun a => (a.type.toNat, a.value)) = some ⟨a.family, a.text, port⟩ := by
    rw [hl, List.map_append, firstOf_append (by simpa using hbefore), List.map_cons, firstOf,
      List.findSome?_cons, if_pos hx, hvalue, decodeAddress_xorValue a port hid]
  have hlen : ¬(response transactionId l ++ rest).length < 20 := by
    simp [response, bytes16, cookieBytes, hid]
  have htype : (response transactionId l ++ rest).take 2 = [1, 1] := rfl
  have hcookie : ((response transactionId l ++ rest).drop 4).take 4 = cookieBytes := rfl
  have htransaction : ((response transactionId l ++ rest).drop 8).take 12 = transactionId := by
    show (transactionId ++ l.flatMap Attribute.encode ++ rest).take 12 = transactionId
    rw [List.append_assoc, ← hid]
    exact List.take_left
  rw [parseBindingResponse_eq, firstAddress, if_neg hlen, if_neg (not_not.mpr htype),
    if_neg (not_not.mpr hcookie), if_neg (not_not.mpr htransaction)]
  simp only [body_response hid hfits, attributes_encode, hfound]
  rfl

def exampleV4 : Address := ⟨.IPv4, [192, 0, 2, 1], rfl⟩

def exampleV6 : Address := ⟨.IPv6, [32, 1, 13, 184, 0, 0, 0, 0, 0, 0, 0, 0, 0, 255, 16, 10], rfl⟩

def exampleId : List UInt8 := [1, 2, 3, 4, 5, 6, 7, 8, 9, 10, 11, 12]

def exampleSoftware : Attribute := ⟨0x8022, [116, 101, 115], [0], by decide, by decide⟩

def mappedV4 : Attribute := ⟨0x0020, xorValue exampleV4 32853 exampleId, [], by decide, by decide⟩

def mappedV6 : Attribute := ⟨0x0020, xorValue exampleV6 443 exampleId, [], by decide, by decide⟩

end Truyn.Stun
