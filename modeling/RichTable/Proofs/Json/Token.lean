import Mathlib
import RichTable.Json.Printer
import RichTable.Json.Reader

/-!
# Numerals and strings read back

A numeral or a string that has been written is read as what it was, whatever follows it. A numeral has
no mark at its end, so that what follows must not look like more of it (`Json.Breaks`), and its digits
before the point must not be padded with zeros (`Numeral.Proper`), since the reader refuses these.
-/

namespace RichTable

/-! ## Digits -/

namespace Digit

/-- A single zero, or digits that do not start with one. -/
def Unpadded (ds : List Digit) : Prop := ∃ d rest, ds = d :: rest ∧ (d = zero → rest = [])

theorem toChar_ne_minus (d : Digit) : d.toChar ≠ '-' := by
  revert d; decide

theorem value_append_singleton (ds : List Digit) (d : Digit) : value (ds ++ [d]) = 10 * value ds + d := by
  simp [value, valueFrom]

theorem value_ofNatWithin {fuel n : Nat} (h : n ≤ fuel) : value (ofNatWithin fuel n) = n := by
  induction fuel generalizing n with
  | zero =>
    obtain rfl : n = 0 := by omega
    rfl
  | succ fuel ih =>
    rw [ofNatWithin]
    split_ifs with hn
    · simp [value, valueFrom, Fin.ofNat, Nat.mod_eq_of_lt hn]
    · rw [value_append_singleton, ih (by omega), Fin.val_ofNat]
      omega

@[simp] theorem value_ofNat (n : Nat) : value (ofNat n) = n := value_ofNatWithin le_rfl

theorem ofNatWithin_eq_cons {fuel n : Nat} (h : n ≤ fuel) (pos : 0 < n) :
    ∃ d rest, ofNatWithin fuel n = d :: rest ∧ d ≠ zero := by
  induction fuel generalizing n with
  | zero => omega
  | succ fuel ih =>
    rw [ofNatWithin]
    split_ifs with hn
    · refine ⟨_, [], rfl, fun heq => ?_⟩
      have : n % 10 = 0 := congrArg Fin.val heq
      omega
    · obtain ⟨d, rest, heq, hd⟩ := ih (n := n / 10) (by omega) (by omega)
      exact ⟨d, _, by rw [heq]; rfl, hd⟩

/-- The digits of a positive number do not start with a zero. -/
theorem ofNat_eq_cons {n : Nat} (pos : 0 < n) : ∃ d rest, ofNat n = d :: rest ∧ d ≠ zero :=
  ofNatWithin_eq_cons le_rfl pos

theorem unpadded_ofNat (n : Nat) : Unpadded (ofNat n) := by
  rcases Nat.eq_zero_or_pos n with rfl | pos
  · exact ⟨zero, [], rfl, fun _ => rfl⟩
  · obtain ⟨d, rest, heq, hd⟩ := ofNat_eq_cons pos
    exact ⟨d, rest, heq, fun h => absurd h hd⟩

end Digit

namespace Numeral

/-- A numeral that the reader accepts. -/
def Proper (n : Numeral) : Prop := Digit.Unpadded n.whole

theorem proper_ofNat (n : Nat) : (ofNat n).Proper := Digit.unpadded_ofNat n

theorem toNat?_ofNat {n : Nat} (h : n ≤ maxNat) : (ofNat n).toNat? = some n := by
  simp [toNat?, ofNat, h]

/-- The characters of an exponent with its mark. -/
def markedExponent (e : Option Int) : List Char := (e.map ('e' :: exponentText ·)).getD []

/-- The characters of a fraction with its point. -/
def markedFraction (ds : List Digit) : List Char := if ds = [] then [] else '.' :: digitsText ds

theorem text_append (n : Numeral) (rest : List Char) : n.text ++ rest =
    (if n.negative then ['-'] else []) ++ (digitsText n.whole ++
      (markedFraction n.fraction ++ (markedExponent n.exponent ++ rest))) := by
  simp only [text, markedFraction, markedExponent, List.append_assoc]
  cases n.exponent <;> rfl

/-- A numeral starts with a sign or a digit. -/
theorem Proper.text_eq_cons {n : Numeral} (h : n.Proper) :
    ∃ c cs, n.text = c :: cs ∧ (c = '-' ∨ ∃ d, c = Digit.toChar d) := by
  obtain ⟨d, ds, heq, -⟩ := h
  rw [← n.text.append_nil, text_append, heq]
  cases n.negative with
  | true => exact ⟨'-', _, rfl, .inl rfl⟩
  | false => exact ⟨d.toChar, _, rfl, .inr ⟨d, rfl⟩⟩

end Numeral

namespace Json

open Numeral

/-! ## Numerals -/

/-- The text does not start with more digits. -/
def BreaksDigits (cs : List Char) : Prop := ∀ c ∈ cs.head?, Digit.ofChar? c = none

/-- The text does not start with more of a numeral. -/
def Breaks (cs : List Char) : Prop :=
  ∀ c ∈ cs.head?, Digit.ofChar? c = none ∧ c ≠ '.' ∧ c ≠ 'e' ∧ c ≠ 'E'

variable {rest : List Char}

theorem scanDigits_digitsText (ds : List Digit) (h : BreaksDigits rest) :
    scanDigits (digitsText ds ++ rest) = (ds, rest) := by
  induction ds with
  | nil =>
    cases rest with
    | nil => rfl
    | cons c cs => simp [digitsText, scanDigits, h c rfl]
  | cons d ds ih =>
    rw [digitsText] at ih
    simp [digitsText, scanDigits, Digit.ofChar?_toChar, ih]

theorem scanSomeDigits_digitsText {ds : List Digit} (hd : ds ≠ []) (h : BreaksDigits rest) :
    scanSomeDigits (digitsText ds ++ rest) = some (ds, rest) := by
  rw [scanSomeDigits, scanDigits_digitsText ds h]
  cases ds with
  | nil => exact absurd rfl hd
  | cons d ds => rfl

theorem scanWhole_digitsText {ds : List Digit} (hd : Digit.Unpadded ds) (h : BreaksDigits rest) :
    scanWhole (digitsText ds ++ rest) = some (ds, rest) := by
  obtain ⟨d, ds, rfl, hd⟩ := hd
  rw [scanWhole, scanSomeDigits_digitsText (List.cons_ne_nil d ds) h]
  exact if_neg fun ⟨hz, hne⟩ => hne (hd hz)

theorem scanFraction_text (ds : List Digit) (h : BreaksDigits rest) (point : '.' ∉ rest.head?) :
    scanFraction (markedFraction ds ++ rest) = some (ds, rest) := by
  rw [markedFraction]
  split_ifs with hd
  · subst hd
    cases rest with
    | nil => rfl
    | cons c cs =>
      have hc : c ≠ '.' := by rintro rfl; exact point rfl
      simp [scanFraction, hc]
  · exact scanSomeDigits_digitsText hd h

theorem scanExponentValue_text (e : Int) (h : BreaksDigits rest) :
    scanExponentValue (exponentText e ++ rest) = some (e, rest) := by
  have some_digits (n : Nat) : Digit.ofNat n ≠ [] := by
    obtain ⟨d, ds, heq, -⟩ := Digit.unpadded_ofNat n
    rw [heq]
    exact List.cons_ne_nil d ds
  cases e with
  | ofNat n =>
    simp [exponentText, scanExponentValue, scanSomeDigits_digitsText (some_digits n) h]
  | negSucc n =>
    simp [exponentText, scanExponentValue, scanSomeDigits_digitsText (some_digits (n + 1)) h,
      Int.negSucc_eq]

theorem scanExponent_text (e : Option Int) (h : Breaks rest) :
    scanExponent (markedExponent e ++ rest) = some (e, rest) := by
  cases e with
  | none =>
    cases rest with
    | nil => rfl
    | cons c cs =>
      obtain ⟨-, -, he, hE⟩ := h c rfl
      simp [markedExponent, scanExponent, he, hE]
  | some e =>
    have digits : BreaksDigits rest := fun c hc => (h c hc).1
    simp [markedExponent, scanExponent, scanExponentValue_text e digits]

theorem scanUnsigned_text (n : Numeral) (proper : n.Proper) (h : Breaks rest) :
    scanUnsigned n.negative (digitsText n.whole ++
      (markedFraction n.fraction ++ (markedExponent n.exponent ++ rest))) = some (n, rest) := by
  have behind : Breaks rest → ∀ c ∈ (markedExponent n.exponent ++ rest).head?,
      Digit.ofChar? c = none ∧ c ≠ '.' := by
    intro h c hc
    cases he : n.exponent with
    | none =>
      rw [he] at hc
      exact ⟨(h c hc).1, (h c hc).2.1⟩
    | some e =>
      rw [he] at hc
      obtain rfl : 'e' = c := by simpa [markedExponent] using hc
      decide
  have exponent := behind h
  have fraction : BreaksDigits (markedFraction n.fraction ++ (markedExponent n.exponent ++ rest)) := by
    intro c hc
    rw [markedFraction] at hc
    split_ifs at hc with hf
    · exact (exponent c hc).1
    · obtain rfl : '.' = c := by simpa using hc
      decide
  rw [scanUnsigned, scanWhole_digitsText proper fraction]
  simp only [Option.bind_eq_bind, Option.bind_some]
  rw [scanFraction_text _ (fun c hc => (exponent c hc).1) fun hc => (exponent _ hc).2 rfl]
  simp only [Option.bind_some]
  rw [scanExponent_text _ h]
  rfl

theorem scanNumeral_text {n : Numeral} (proper : n.Proper) (h : Breaks rest) :
    scanNumeral (n.text ++ rest) = some (n, rest) := by
  rw [text_append]
  have unsigned := scanUnsigned_text n proper h
  cases hn : n.negative with
  | true =>
    rw [hn] at unsigned
    exact unsigned
  | false =>
    rw [hn] at unsigned
    obtain ⟨d, ds, heq, -⟩ := proper
    rw [heq] at unsigned ⊢
    simpa [digitsText, scanNumeral, d.toChar_ne_minus] using unsigned

/-! ## Strings -/

theorem hexValue?_hexDigit {n : Nat} (h : n < 16) : hexValue? (hexDigit n) = some n := by
  revert n; decide

/-- A character that is written by its number. -/
theorem unitPiece?_control {c : Char} (h : c.toNat < 32) :
    unitPiece? '0' '0' (hexDigit (c.toNat / 16)) (hexDigit (c.toNat % 16)) = some (.char c) := by
  have zero : hexValue? '0' = some 0 := rfl
  have number : 4096 * 0 + 256 * 0 + 16 * (c.toNat / 16) + c.toNat % 16 = c.toNat := by omega
  simp only [unitPiece?, zero, hexValue?_hexDigit (show c.toNat / 16 < 16 by omega),
    hexValue?_hexDigit (Nat.mod_lt c.toNat (by decide)), Option.bind_eq_bind, Option.bind_some, number]
  rw [if_neg (by omega), Char.ofNat_toNat]
  rfl

/-- A character of a string is read as it was written. -/
theorem scanPieces_escape (c : Char) (cs : List Char) : scanPieces (escape c ++ cs) =
    (scanPieces cs).map fun (ps, rest) => (.char c :: ps, rest) := by
  rw [escape]
  split
  · next e he =>
    unfold shortEscape? at he
    split at he <;> cases he <;> simp [scanPieces, unescape?, Option.map_eq_bind]
  · next hnone =>
    split_ifs with hc
    · simp [scanPieces, unitPiece?_control hc, Option.map_eq_bind]
    · have quote : c ≠ '"' := by rintro rfl; cases hnone
      have backslash : c ≠ '\\' := by rintro rfl; cases hnone
      simp [scanPieces, backslash, hc, Option.map_eq_bind]

theorem scanPieces_flatMap (cs rest : List Char) :
    scanPieces (cs.flatMap escape ++ '"' :: rest) = some (cs.map .char, rest) := by
  induction cs with
  | nil => simp [scanPieces]
  | cons c cs ih => rw [List.flatMap_cons, List.append_assoc, scanPieces_escape, ih]; rfl

theorem joinPieces_char (cs : List Char) : joinPieces (cs.map .char) = some cs := by
  induction cs with
  | nil => rfl
  | cons c cs ih => rw [List.map_cons, joinPieces, ih]; rfl

/-- A string is read as it was written, also one without a text. -/
theorem scanString_quoted (s : Option String) (rest : List Char) :
    ∃ cs, quoted s ++ rest = '"' :: cs ∧ scanString cs = some (s, rest) := by
  cases s with
  | none =>
    have text : quoted none = ['"', '\\', 'u', 'd', '8', '0', '0', '"'] := by decide +kernel
    exact ⟨['\\', 'u', 'd', '8', '0', '0', '"'] ++ rest, by rw [text]; rfl, by rfl⟩
  | some s =>
    have text : quoted (some s) = '"' :: s.toList.flatMap escape ++ ['"'] := rfl
    refine ⟨s.toList.flatMap escape ++ '"' :: rest, by simp [text], ?_⟩
    rw [scanString, scanPieces_flatMap]
    simp [joinPieces_char]

end Json

end RichTable
