import Mathlib
import RichTable.Decimal.Double
import RichTable.Proofs.Json.Token

/-!
# Numerals of doubles

The numeral of a finite double is one that the reader accepts (`Decimal.proper_ofDouble?`): the shortest
decimal is not zero, so that its digits do not start with a zero, and the layout puts zeros before them
only behind the point. The doubles that have a numeral are the finite ones
(`Decimal.isFinite_iff_ofDouble?`).
-/

namespace RichTable.Decimal

open Float.Model

/-! ## The shortest decimal is positive -/

namespace Binary

variable {b : Binary}

/-- Zero rounds to no positive number. -/
theorem admits_zero (h : 0 < b.mantissa) (k : Int) : b.admits k 0 = false := by
  have positive : 0 < twoNum (4 * b.mantissa - if b.leastOfBinade then 1 else 2) (b.exponent - 2) *
      Nat.pow 10 (-k).toNat := by
    refine Nat.mul_pos (Nat.mul_pos ?_ (Nat.pow_pos (by decide))) (Nat.pow_pos (by decide))
    split_ifs <;> omega
  have low : compareDecimal 0 k (4 * b.mantissa - if b.leastOfBinade then 1 else 2)
      (b.exponent - 2) = .lt := by
    rw [compareDecimal, Nat.zero_mul, Nat.zero_mul, Nat.compare_eq_lt]
    exact positive
  simp [admits, low]

theorem pos_of_onGrid? (h : 0 < b.mantissa) {k : Int} {d : Decimal} (hd : b.onGrid? k = some d) :
    0 < d.digits := by
  have admitted {c : Nat} (hc : b.admits k c = true) : 0 < c := by
    rcases Nat.eq_zero_or_pos c with rfl | pos
    · rw [admits_zero h k] at hc
      cases hc
    · exact pos
  unfold onGrid? at hd
  dsimp only at hd
  split at hd
  · next lower _ =>
    cases hd
    dsimp only
    split
    · exact admitted lower
    · exact Nat.succ_pos _
  · next lower _ =>
    cases hd
    exact admitted lower
  · cases hd
    exact Nat.succ_pos _
  · cases hd

theorem pos_search (h : 0 < b.mantissa) {fuel : Nat} {k : Int} (hk : 0 < b.floorAt (k - fuel)) :
    0 < (b.search fuel k).digits := by
  induction fuel generalizing k with
  | zero => simpa [search] using hk
  | succ fuel ih =>
    rw [search]
    split
    · next d hd => exact pos_of_onGrid? h hd
    · refine ih ?_
      rwa [show k - 1 - (fuel : Int) = k - (fuel + 1 : Nat) by omega]

/-- Ten decimal places are worth more than 33 binary ones. -/
theorem pos_floorAt (h : 0 < b.mantissa) {k : Nat} (hk : (-b.exponent).toNat ≤ 33 * k) :
    0 < b.floorAt (-(10 * k : Nat)) := by
  refine Nat.div_pos ?_ (Nat.mul_pos (Nat.pow_pos (by decide)) (Nat.pow_pos (by decide)))
  rw [Int.toNat_neg_natCast, neg_neg, Int.toNat_natCast]
  calc Nat.pow 10 0 * twoDen b.exponent
      = 2 ^ (-b.exponent).toNat := Nat.one_mul _
    _ ≤ 2 ^ (33 * k) := Nat.pow_le_pow_right (by decide) hk
    _ = (2 ^ 33) ^ k := pow_mul 2 33 k
    _ ≤ (10 ^ 10) ^ k := Nat.pow_le_pow_left (by decide) k
    _ = 10 ^ (10 * k) := (pow_mul 10 10 k).symm
    _ ≤ twoNum b.mantissa b.exponent * Nat.pow 10 (10 * k) :=
      Nat.le_mul_of_pos_left _ (Nat.mul_pos h (Nat.pow_pos (by decide)))

theorem pos_shortest (h : 0 < b.mantissa) (he : -1074 ≤ b.exponent) : 0 < b.shortest.digits := by
  refine pos_search h ?_
  rw [show ((Digit.ofNat (b.floorAt 0)).length : Int) - ((Digit.ofNat (b.floorAt 0)).length + 330 : Nat) =
    -(10 * 33 : Nat) by omega]
  exact pos_floorAt h (by omega)

end Binary

theorem pos_of_binaryOfBits? {bits : UInt64} {b : Binary} (h : binaryOfBits? bits = some b) :
    0 < b.mantissa ∧ -1074 ≤ b.exponent := by
  simp only [binaryOfBits?] at h
  split_ifs at h with _ hz hf
  · cases h
    exact ⟨Nat.pos_of_ne_zero hf, le_rfl⟩
  · cases h
    refine ⟨Nat.add_pos_right _ (Nat.pow_pos (by decide)), ?_⟩
    dsimp only
    omega

/-! ## Layout -/

theorem proper_layout (s : Style) {d : Decimal} (h : 0 < d.digits) : (d.layout s).Proper := by
  obtain ⟨x, rest, heq, hx⟩ := Digit.ofNat_eq_cons h
  rw [layout, heq]
  split_ifs with _ hpoint
  · exact ⟨x, _, rfl, fun h => absurd h hx⟩
  · obtain ⟨k, hk⟩ : ∃ k, (((x :: rest).length : Int) + d.exponent).toNat = k + 1 :=
      ⟨_, (Nat.succ_pred_eq_of_pos (by omega)).symm⟩
    rw [hk]
    exact ⟨x, _, rfl, fun h => absurd h hx⟩
  · exact ⟨.zero, [], rfl, fun _ => rfl⟩
  · exact ⟨x, [], rfl, fun _ => rfl⟩

/-- The numeral of a double is one that the reader accepts. -/
theorem proper_ofDouble? {f : Float} {n : Numeral} (h : ofDouble? f = some n) : n.Proper := by
  simp only [ofDouble?] at h
  split at h
  · next b hb =>
    cases h
    obtain ⟨hm, he⟩ := pos_of_binaryOfBits? hb
    exact proper_layout doubleStyle (Binary.pos_shortest hm he)
  · split_ifs at h
    cases h
    exact ⟨.zero, [], rfl, fun _ => rfl⟩

/-! ## Doubles with a numeral -/

theorem toNat_unpackExponent (bits : UInt64) :
    (@UnpackedFloat.unpackExponent .binary64 bits.toBitVec).toNat =
      bits.toNat / Nat.pow 2 52 % Nat.pow 2 11 := by
  rw [UnpackedFloat.unpackExponent_def, BitVec.extractLsb'_toNat, Nat.shiftRight_eq_div_pow]
  rfl

theorem toNat_unpackMantissa (bits : UInt64) :
    (@UnpackedFloat.unpackMantissa .binary64 bits.toBitVec).toNat = bits.toNat % Nat.pow 2 52 := by
  rw [UnpackedFloat.unpackMantissa_def, BitVec.extractLsb'_toNat, Nat.shiftRight_zero]
  rfl

/-- The doubles without a binary number are the zeros and those that are not finite. -/
theorem binaryOfBits?_eq_none_iff {bits : UInt64} :
    binaryOfBits? bits = none ↔ (UnpackedFloat.unpack .binary64 bits.toBitVec).isFinite = false ∨
      ∃ sign, UnpackedFloat.unpack .binary64 bits.toBitVec = .zero sign := by
  have fields : binaryOfBits? bits = none ↔
      @UnpackedFloat.unpackExponent .binary64 bits.toBitVec = -1#11 ∨
        @UnpackedFloat.unpackExponent .binary64 bits.toBitVec = 0#11 ∧
          @UnpackedFloat.unpackMantissa .binary64 bits.toBitVec = 0#52 := by
    rw [← BitVec.toNat_inj, ← BitVec.toNat_inj, ← BitVec.toNat_inj, toNat_unpackExponent,
      toNat_unpackMantissa, show (-1#11).toNat = 2047 from rfl]
    simp only [binaryOfBits?]
    split_ifs <;> simp_all
  rw [fields, UnpackedFloat.unpack]
  dsimp only
  split_ifs with top _ zeroExponent zeroMantissa
  · simp [top, UnpackedFloat.isFinite]
  · simp [top, UnpackedFloat.isFinite]
  · simp [zeroExponent, zeroMantissa]
  · simpa [zeroMantissa, UnpackedFloat.isFinite] using top
  · simpa [zeroExponent, UnpackedFloat.isFinite] using top

theorem beq_zero_iff {f : Float} : (f == 0) = true ↔ ∃ sign, f.toModel.unpack = .zero sign := by
  change f.toModel.unpack.beq (.zero .positive) = true ↔ _
  rw [UnpackedFloat.beq_iff_ne_notANumber_and_eq]
  constructor
  · rintro ⟨-, -, zero | ⟨-, zero⟩ | ⟨zero, -⟩⟩
    · exact ⟨_, zero⟩
    · cases zero
    · exact ⟨_, zero⟩
  · rintro ⟨_ | _, zero⟩ <;> simp [zero]

/-- The doubles that have a numeral are the finite ones. -/
theorem isFinite_iff_ofDouble? {f : Float} : f.isFinite = true ↔ ∃ n, ofDouble? f = some n := by
  have none_iff : binaryOfBits? f.toBits = none ↔ f.isFinite = false ∨ (f == 0) = true := by
    rw [beq_zero_iff]
    exact binaryOfBits?_eq_none_iff
  simp only [ofDouble?]
  split
  · next b hb =>
    have finite := (not_or.1 (mt none_iff.2 (by rw [hb]; exact Option.some_ne_none b))).1
    exact iff_of_true (Bool.eq_true_of_not_eq_false finite) ⟨_, rfl⟩
  · next hb =>
    split_ifs with zero
    · obtain ⟨sign, unpacked⟩ := beq_zero_iff.1 zero
      refine iff_of_true ?_ ⟨_, rfl⟩
      change f.toModel.unpack.isFinite = true
      rw [unpacked]
      rfl
    · have infinite := (none_iff.1 hb).resolve_right zero
      simp [infinite]

end RichTable.Decimal
