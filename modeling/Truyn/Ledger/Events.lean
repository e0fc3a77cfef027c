import Truyn.Ledger.Cosmos
import Truyn.Js.Numerals

/-! ledger:events | an event id names its NEED, whatever the NEED is called

    An event id is `<kind>:<id>`, or `partial:<id>:<sequence>` for a PARTIAL frame. NEED ids are
    arbitrary and may have colons and digits of their own; still the id of the NEED can be read back
    (`needOfEvent_eventId`), because the kind is what stands before the first colon and a sequence
    number, which has no colon, what stands after the last. So different events have different ids
    (`eventId_inj`), and the id of an event is short enough to be acknowledged
    (`nonempty_eventId`). -/

namespace Truyn.Ledger
open Cosmos

/-- The ledgers can name the event: its kind is known, and a PARTIAL frame has its number. -/
def Named (kind : Kind) (e : Event) : Prop :=
  match kind with
  | .NEED | .RESULT | .REVOKE => True
  | .PARTIAL => ∃ n : ℕ, e.sequence = some (n : ℤ)
  | .other _ => False

variable {l r id : JsString} {kind : Kind} {e : Event}

/-! ### Colons -/

theorem idxOf?_first (h : (58 : UInt16) ∉ l) :
    (l ++ 58 :: r).idxOf? 58 = some l.length := by
  induction l with
  | nil => simp [List.idxOf?_cons]
  | cons u l ih =>
    obtain ⟨hu, hl⟩ : (58 : UInt16) ≠ u ∧ (58 : UInt16) ∉ l := by simpa using h
    rw [List.cons_append, List.idxOf?_cons, ih hl]
    simp [Ne.symm hu]

theorem lastColon_last (h : (58 : UInt16) ∉ r) :
    lastColon (l ++ 58 :: r) = some l.length := by
  have hr : (l ++ 58 :: r).reverse = r.reverse ++ 58 :: l.reverse := by simp
  rw [lastColon, hr, idxOf?_first (by simpa using h)]
  simp only [Option.map_some, List.length_append, List.length_cons, List.length_reverse]
  congr 1
  omega

theorem colon_notMem_numeral (n : ℕ) : (58 : UInt16) ∉ numeral n := by
  intro h
  exact absurd (numeral_digits n _ h).2 (by decide)

theorem isDecimal_numeral (n : ℕ) : isDecimal (numeral n) = true := by
  rcases Nat.eq_zero_or_pos n with rfl | h
  · decide
  · have hd : (numeral n).all fun u => 48 ≤ u ∧ u ≤ 57 := by
      rw [List.all_eq_true]
      exact fun u hu => decide_eq_true (numeral_digits n u hu)
    have hn : numeral n ≠ [] ∧ (numeral n).headD 0 ≠ 48 := ⟨numeral_ne_nil n, numeral_head h⟩
    simp only [isDecimal, hd, hn.1, hn.2, ne_eq, not_false_eq_true, and_self, or_true, decide_true]

/-- The kinds whose events are named `<kind>:<id>`. -/
theorem plainKinds : ∀ k ∈ [js "need", js "result", js "revoke"],
    k ≠ js "partial" ∧ k.length ≠ 0 ∧ k.length ≤ 6 ∧
      k ∈ [js "need", js "result", js "revoke", js "partial"] := by
  decide

/-! ### Reading an event id back -/

/-- The part of an event id before the first colon, and after it. -/
theorem eventId_split (kind : Kind) (id : JsString) (e : Event) (h : Named kind e) :
    ∃ k rest, eventId kind id e = k ++ 58 :: rest ∧ (58 : UInt16) ∉ k ∧
      (kind = .PARTIAL ∧ k = js "partial" ∧
          (∃ n : ℕ, e.sequence = some (n : ℤ) ∧ rest = id ++ 58 :: numeral n) ∨
        kind ≠ .PARTIAL ∧ k = kind.toLowerCase ∧ k ∈ [js "need", js "result", js "revoke"] ∧
          rest = id) := by
  cases kind with
  | PARTIAL =>
    obtain ⟨n, hn⟩ := h
    refine ⟨js "partial", id ++ 58 :: numeral n, ?_, by decide, .inl ⟨rfl, rfl, n, hn, rfl⟩⟩
    have hp : js "partial:" = js "partial" ++ [58] := by decide
    have hc : js ":" = [58] := by decide
    rw [eventId, if_pos rfl, hn, decimal_natCast, hp, hc]
    simp
  | NEED => exact ⟨js "need", id, rfl, by decide, .inr ⟨by decide, rfl, by decide, rfl⟩⟩
  | RESULT => exact ⟨js "result", id, rfl, by decide, .inr ⟨by decide, rfl, by decide, rfl⟩⟩
  | REVOKE => exact ⟨js "revoke", id, rfl, by decide, .inr ⟨by decide, rfl, by decide, rfl⟩⟩
  | other s => exact False.elim h

/-- The NEED of an event is the one its id was made for. -/
theorem needOfEvent_eventId (hid : nonempty id = true) (h : Named kind e) :
    needOfEvent (eventId kind id e) = .ok id := by
  obtain ⟨k, rest, he, hk, hcase⟩ := eventId_split kind id e h
  rw [needOfEvent, he, idxOf?_first hk]
  have htake : (k ++ 58 :: rest).take k.length = k := List.take_left' rfl
  have hdrop : (k ++ 58 :: rest).drop (k.length + 1) = rest := by
    rw [List.drop_append]
    simp
  simp only [htake, hdrop]
  rcases hcase with ⟨-, rfl, n, -, rfl⟩ | ⟨-, -, hmem, rfl⟩
  · rw [if_neg (by decide), if_pos rfl, lastColon_last (colon_notMem_numeral n)]
    have hpos : id.length ≠ 0 := by
      have hlen := of_decide_eq_true hid
      omega
    have htake' : (id ++ 58 :: numeral n).take id.length = id := List.take_left' rfl
    have hdrop' : (id ++ 58 :: numeral n).drop (id.length + 1) = numeral n := by
      rw [List.drop_append]
      simp
    simp only [htake', hdrop', isDecimal_numeral, hid, hpos, Bool.not_true, Bool.false_eq_true,
      or_self, if_false]
  · obtain ⟨hp, hk0, -, hkind⟩ := plainKinds k hmem
    rw [if_neg (by simp [hk0, hkind]), if_neg hp, if_neg (by simp [hid])]

/-- Events with the same id are of one kind and one NEED, and PARTIAL frames have one number. -/
theorem eventId_inj {kind' : Kind} {id' : JsString} {e' : Event} (hid : nonempty id = true)
    (hid' : nonempty id' = true) (h : Named kind e) (h' : Named kind' e')
    (heq : eventId kind id e = eventId kind' id' e') :
    id = id' ∧ kind = kind' ∧ (kind = .PARTIAL → e.sequence = e'.sequence) := by
  have hneed : id = id' := by
    have := needOfEvent_eventId hid h
    rw [heq, needOfEvent_eventId hid' h'] at this
    exact (Except.ok.inj this).symm
  subst hneed
  refine ⟨rfl, ?_⟩
  obtain ⟨k, rest, he, hk, hcase⟩ := eventId_split kind id e h
  obtain ⟨k', rest', he', hk', hcase'⟩ := eventId_split kind' id e' h'
  have hkk : k = k' ∧ rest = rest' := by
    have hidx := idxOf?_first (r := rest) hk
    rw [← he, heq, he', idxOf?_first hk'] at hidx
    have hlen : k.length = k'.length := (Option.some.inj hidx).symm
    have happ : k ++ 58 :: rest = k' ++ 58 :: rest' := by rw [← he, ← he', heq]
    obtain ⟨hk, hr⟩ := List.append_inj happ hlen
    exact ⟨hk, (List.cons.inj hr).2⟩
  obtain ⟨rfl, rfl⟩ := hkk
  rcases hcase with ⟨rfl, rfl, n, hn, rfl⟩ | ⟨hp, rfl, hmem, -⟩
  · rcases hcase' with ⟨rfl, -, m, hm, hr⟩ | ⟨-, -, hmem', -⟩
    · have hnm : numeral n = numeral m := (List.cons.inj (List.append_cancel_left hr)).2
      exact ⟨rfl, fun _ => by rw [hn, hm, numeral_injective hnm]⟩
    · exact absurd hmem' (by decide)
  · rcases hcase' with ⟨-, hk, -⟩ | ⟨-, hk, -, -⟩
    · rw [hk] at hmem
      exact absurd hmem (by decide)
    · refine ⟨?_, fun h => absurd h hp⟩
      cases kind <;> cases kind' <;> first | rfl | exact False.elim h | exact False.elim h' |
        exact absurd hk (by decide)

/-- The id of an event of a NEED that fits in a NEED's id is short enough for an acknowledgement. -/
theorem nonempty_eventId (hid : validNeedId id = true) (h : Named kind e)
    (hs : kind = .PARTIAL → ∀ n : ℤ, e.sequence = some n → isSafeInteger n = true) :
    nonempty (eventId kind id e) = true := by
  have hlen : id.length ≤ 4070 := (of_decide_eq_true hid).2
  obtain ⟨k, rest, he, -, hcase⟩ := eventId_split kind id e h
  rw [he]
  rcases hcase with ⟨hp, rfl, n, hn, rfl⟩ | ⟨-, -, hmem, rfl⟩
  · have hsafe := (of_decide_eq_true (hs hp n hn)).2
    have hn16 : (numeral n).length ≤ 16 := by
      refine (length_numeral_le (by decide)).mpr ?_
      omega
    have hp : (js "partial").length = 7 := by decide
    simp only [nonempty, List.length_append, List.length_cons, decide_eq_true_eq]
    omega
  · obtain ⟨-, -, hk, -⟩ := plainKinds k hmem
    simp only [nonempty, List.length_append, List.length_cons, decide_eq_true_eq]
    omega

end Truyn.Ledger
