import InfixCalc.Proofs.Number.Double

/-!
# The order of numbers

Numbers are ordered like their code words, where the code word of a negative number counts
downwards. `rank` is this position of a number among all others. It is the same for both zeros, so
that numbers of equal rank are those that are equal as numbers. NaN has a place in no order, and all
comparisons with it fail.
-/

namespace InfixCalc.Number

open Float.Model (UnpackedFloat Format.binary64)
open Float.Model.UnpackedFloat (unpack unpackExponent unpackMantissa unpackSign Sign)

/-! ### Significand and exponent -/

/-- The sign that a sign bit stands for. -/
def signOf (negative : Bool) : Sign := if negative then .negative else .positive

/-- What a sign and a code word are taken apart into. Code words that are finite grow with the
exponent first and with the significand second. -/
inductive Unpacks (negative : Bool) (word : Nat) : UnpackedFloat → Prop where
  | nan (h : Format.double.infinity < word) : Unpacks negative word .notANumber
  | infinity (h : word = Format.double.infinity) :
      Unpacks negative word (.infinity (signOf negative))
  | zero (h : word = 0) : Unpacks negative word (.zero (signOf negative))
  | finite {k m : Nat} (hm : 0 < m) (hlt : m < 2 ^ 53) (hle : k = 0 ∨ 2 ^ 52 ≤ m)
      (hword : word = k * 2 ^ 52 + m) (h : word < Format.double.infinity) :
      Unpacks negative word (.finite (signOf negative) m ((k : Int) - 1074) hm)

lemma toNat_unpackSign (b : BitVec 64) :
    (@unpackSign .binary64 b).toNat = b.toNat / 2 ^ 63 % 2 := by
  rw [UnpackedFloat.unpackSign_def, BitVec.extractLsb'_toNat, Nat.shiftRight_eq_div_pow]
  rfl

lemma ofBitVec_unpackSign (x : Float) :
    Sign.ofBitVec (@unpackSign .binary64 x.toBits.toBitVec) = signOf (isNegative x) := by
  have hbits : x.toBits.toNat = x.toBits.toBitVec.toNat := rfl
  have hlt := x.toBits.toBitVec.isLt
  have hzero : @unpackSign .binary64 x.toBits.toBitVec = 0#1 ↔ ¬ isNegative x := by
    rw [← BitVec.toNat_inj, toNat_unpackSign, BitVec.toNat_ofNat, isNegative, signBit_eq,
      decide_eq_true_iff, hbits]
    omega
  rw [Sign.ofBitVec, signOf]
  simp only [hzero]
  cases isNegative x <;> rfl

lemma unpackExponent_eq_zero_iff (b : BitVec 64) :
    @unpackExponent .binary64 b = 0#11 ↔ b.toNat / 2 ^ 52 % 2048 = 0 := by
  rw [← BitVec.toNat_inj, toNat_unpackExponent]
  rfl

/-- The leading bit of a significand, which is not stored. -/
lemma toNat_one_append (v : BitVec 52) : (1#1 ++ v).toNat = 2 ^ 52 + v.toNat := by
  have hor := Nat.two_pow_add_eq_or_of_lt v.isLt 1
  rw [Nat.mul_one] at hor
  rw [BitVec.toNat_append, hor]
  rfl

lemma unpacks (x : Float) :
    Unpacks (isNegative x) (word x) (unpack .binary64 x.toBits.toBitVec) := by
  have hexponent := toNat_unpackExponent x.toBits.toBitVec
  have hmantissa := toNat_unpackMantissa x.toBits.toBitVec
  have hword : word x = x.toBits.toBitVec.toNat % 2 ^ 63 := by
    rw [word, signBit_eq]
    rfl
  have hinfinity := infinity_double
  have hlt := x.toBits.toBitVec.isLt
  unfold unpack
  simp only [ofBitVec_unpackSign]
  split_ifs with hspecial hfraction hleast hzero
  · rw [unpackExponent_eq_iff] at hspecial
    rw [unpackMantissa_eq_iff] at hfraction
    exact .infinity (by omega)
  · rw [unpackExponent_eq_iff] at hspecial
    rw [unpackMantissa_eq_iff] at hfraction
    exact .nan (by omega)
  · rw [unpackExponent_eq_zero_iff] at hleast
    rw [unpackMantissa_eq_iff] at hzero
    exact .zero (by omega)
  · rw [unpackExponent_eq_zero_iff] at hleast
    rw [unpackMantissa_eq_iff] at hzero
    have hk : (@unpackExponent .binary64 x.toBits.toBitVec).toNat = 0 := by omega
    have hfinite := @Unpacks.finite (isNegative x) (word x) 0
      (@unpackMantissa .binary64 x.toBits.toBitVec).toNat (by omega) (by omega) (.inl rfl)
      (by omega) (by omega)
    simpa [hk, Float.Model.Format.exponentBias] using hfinite
  · rw [unpackExponent_eq_iff] at hspecial
    rw [unpackExponent_eq_zero_iff] at hleast
    have hm := toNat_one_append (@unpackMantissa .binary64 x.toBits.toBitVec)
    have hfinite := @Unpacks.finite (isNegative x) (word x)
      ((@unpackExponent .binary64 x.toBits.toBitVec).toNat - 1)
      (1#1 ++ @unpackMantissa .binary64 x.toBits.toBitVec).toNat (by omega) (by omega)
      (.inr (by omega)) (by omega) (by omega)
    convert hfinite using 1
    rw [Nat.cast_sub (by omega)]
    simp only [Float.Model.Format.exponentBias, UnpackedFloat.finite.injEq, true_and]
    omega

/-! ### Comparison -/

/-- The position of a code word among all others, those of negative numbers counting downwards. -/
def position (negative : Bool) (word : Nat) : Int := if negative then -word else word

lemma compare_natCast (m n : Nat) : compare (m : Int) n = compare m n := by
  rcases lt_trichotomy m n with h | rfl | h
  · rw [compare_lt_iff_lt.mpr h, compare_lt_iff_lt.mpr (Int.ofNat_lt.mpr h)]
  · rw [compare_eq_iff_eq.mpr rfl, compare_eq_iff_eq.mpr rfl]
  · rw [compare_gt_iff_gt.mpr h, compare_gt_iff_gt.mpr (Int.ofNat_lt.mpr h)]

lemma compare_neg (m n : Int) : compare (-m) (-n) = (compare m n).swap := by
  rcases lt_trichotomy m n with h | rfl | h
  · rw [compare_lt_iff_lt.mpr h, compare_gt_iff_gt.mpr (neg_lt_neg h), Ordering.swap]
  · rw [compare_eq_iff_eq.mpr rfl, compare_eq_iff_eq.mpr rfl, Ordering.swap]
  · rw [compare_gt_iff_gt.mpr h, compare_lt_iff_lt.mpr (neg_lt_neg h), Ordering.swap]

/-- A greater exponent outweighs any significand. -/
lemma compare_exponent_then {k l m n : Nat} (hm : m < 2 ^ 53) (hn : n < 2 ^ 53)
    (hk : k = 0 ∨ 2 ^ 52 ≤ m) (hl : l = 0 ∨ 2 ^ 52 ≤ n) :
    (compare ((k : Int) - 1074) (l - 1074)).then (compare m n)
      = compare (k * 2 ^ 52 + m) (l * 2 ^ 52 + n) := by
  rcases lt_trichotomy k l with h | rfl | h
  · have hexponent : (k : Int) - 1074 < l - 1074 := by omega
    have hword : k * 2 ^ 52 + m < l * 2 ^ 52 + n := by omega
    rw [compare_lt_iff_lt.mpr hexponent, compare_lt_iff_lt.mpr hword]
    rfl
  · rw [compare_eq_iff_eq.mpr rfl]
    rcases lt_trichotomy m n with h | rfl | h
    · rw [compare_lt_iff_lt.mpr h, compare_lt_iff_lt.mpr (Nat.add_lt_add_left h _)]
      rfl
    · rw [compare_eq_iff_eq.mpr rfl, compare_eq_iff_eq.mpr rfl]
      rfl
    · rw [compare_gt_iff_gt.mpr h, compare_gt_iff_gt.mpr (Nat.add_lt_add_left h _)]
      rfl
  · have hexponent : (l : Int) - 1074 < k - 1074 := by omega
    have hword : l * 2 ^ 52 + n < k * 2 ^ 52 + m := by omega
    rw [compare_gt_iff_gt.mpr hexponent, compare_gt_iff_gt.mpr hword]
    rfl

namespace Unpacks

variable {n₁ n₂ : Bool} {w₁ w₂ : Nat} {u v : UnpackedFloat}

/-- Numbers of different kinds are told apart by their signs and by which code word is greater. -/
theorem compare_eq (hu : Unpacks n₁ w₁ u) (hv : Unpacks n₂ w₂ v)
    (h₁ : w₁ ≤ Format.double.infinity) (h₂ : w₂ ≤ Format.double.infinity) :
    some (compare (position n₁ w₁) (position n₂ w₂)) = u.compare v := by
  have hinfinity := infinity_double
  cases hu with
  | nan h => omega
  | infinity h =>
    cases hv with
    | nan h' => omega
    | infinity h' =>
      rw [h, h', hinfinity]
      cases n₁ <;> cases n₂ <;> rfl
    | zero h' | finite hm' hlt' hle' hword' h' =>
      cases n₁ <;> cases n₂ <;>
        simp [UnpackedFloat.compare, signOf, position, compare_lt_iff_lt, compare_gt_iff_gt] <;>
        omega
  | zero h =>
    cases hv with
    | nan h' => omega
    | infinity h' | zero h' | finite hm' hlt' hle' hword' h' =>
      cases n₁ <;> cases n₂ <;>
        simp [UnpackedFloat.compare, signOf, position, compare_lt_iff_lt, compare_gt_iff_gt] <;>
        omega
  | finite hm hlt hle hword h =>
    cases hv with
    | nan h' => omega
    | infinity h' | zero h' =>
      cases n₁ <;> cases n₂ <;>
        simp [UnpackedFloat.compare, signOf, position, compare_lt_iff_lt, compare_gt_iff_gt] <;>
        omega
    | finite hm' hlt' hle' hword' h' =>
      have hthen := compare_exponent_then hlt hlt' hle hle'
      rw [← hword, ← hword', ← compare_natCast w₁ w₂] at hthen
      cases n₁ <;> cases n₂ <;>
        simp [UnpackedFloat.compare, signOf, position, hthen, compare_neg, compare_lt_iff_lt,
          compare_gt_iff_gt]
      all_goals omega

end Unpacks

/-! ### Ranks -/

/-- The position of a number among all others. -/
def rank (x : Float) : Int := position (isNegative x) (word x)

variable {x y z : Float}

lemma compare_unpack (hx : x.isNaN = false) (hy : y.isNaN = false) :
    x.toModel.unpack.compare y.toModel.unpack = some (compare (rank x) (rank y)) :=
  ((unpacks x).compare_eq (unpacks y) (isNaN_eq_false_iff.mp hx) (isNaN_eq_false_iff.mp hy)).symm

lemma unpack_of_isNaN (h : x.isNaN) : x.toModel.unpack = .notANumber :=
  UnpackedFloat.isNaN_iff.mp h

/-- Comparisons with NaN have no outcome. -/
lemma compare_unpack_eq_some_iff {o : Ordering} :
    x.toModel.unpack.compare y.toModel.unpack = some o ↔
      x.isNaN = false ∧ y.isNaN = false ∧ compare (rank x) (rank y) = o := by
  cases hx : x.isNaN with
  | true =>
    rw [unpack_of_isNaN hx]
    simp [UnpackedFloat.compare]
  | false =>
    cases hy : y.isNaN with
    | true =>
      rw [unpack_of_isNaN hy]
      cases x.toModel.unpack <;> simp [UnpackedFloat.compare]
    | false => simp [compare_unpack hx hy]

theorem lt_iff : x < y ↔ x.isNaN = false ∧ y.isNaN = false ∧ rank x < rank y := by
  rw [← compare_lt_iff_lt, ← compare_unpack_eq_some_iff]
  change decide ((x.toModel.unpack.compare y.toModel.unpack == some .lt) = true) = true ↔ _
  rw [decide_eq_true_iff, beq_iff_eq]

theorem le_iff : x ≤ y ↔ x.isNaN = false ∧ y.isNaN = false ∧ rank x ≤ rank y := by
  change decide ((x.toModel.unpack.compare y.toModel.unpack).any (·.isLE) = true) = true ↔ _
  rw [decide_eq_true_iff, Option.any_eq_true]
  simp only [compare_unpack_eq_some_iff]
  constructor
  · rintro ⟨o, ⟨hx, hy, rfl⟩, ho⟩
    exact ⟨hx, hy, Std.isLE_compare.mp ho⟩
  · rintro ⟨hx, hy, hle⟩
    exact ⟨_, ⟨hx, hy, rfl⟩, Std.isLE_compare.mpr hle⟩

theorem beq_iff : x == y ↔ x.isNaN = false ∧ y.isNaN = false ∧ rank x = rank y := by
  rw [← compare_eq_iff_eq (a := rank x), ← compare_unpack_eq_some_iff]
  change (x.toModel.unpack.compare y.toModel.unpack == some .eq) = true ↔ _
  rw [beq_iff_eq]

lemma lt_irrefl (x : Float) : ¬ x < x := fun h => Int.lt_irrefl _ (lt_iff.mp h).2.2

lemma lt_asymm (h : x < y) : ¬ y < x :=
  fun h' => Int.lt_asymm (lt_iff.mp h).2.2 (lt_iff.mp h').2.2

lemma not_lt_of_le (h : x ≤ y) : ¬ y < x :=
  fun h' => Int.not_lt.mpr (le_iff.mp h).2.2 (lt_iff.mp h').2.2

lemma le_of_not_lt (hx : x.isNaN = false) (hy : y.isNaN = false) (h : ¬ y < x) : x ≤ y :=
  le_iff.mpr ⟨hx, hy, Int.not_lt.mp fun hlt => h (lt_iff.mpr ⟨hy, hx, hlt⟩)⟩

lemma le_trans (h : x ≤ y) (h' : y ≤ z) : x ≤ z :=
  le_iff.mpr ⟨(le_iff.mp h).1, (le_iff.mp h').2.1,
    Int.le_trans (le_iff.mp h).2.2 (le_iff.mp h').2.2⟩

lemma rank_eq_of_not_lt (hx : x.isNaN = false) (hy : y.isNaN = false) (h : ¬ x < y)
    (h' : ¬ y < x) : rank x = rank y :=
  Int.le_antisymm (le_iff.mp (le_of_not_lt hx hy h')).2.2 (le_iff.mp (le_of_not_lt hy hx h)).2.2

lemma not_lt_of_isNaN (h : x.isNaN) (y : Float) : ¬ x < y ∧ ¬ y < x := by
  simp only [lt_iff, h, Bool.true_eq_false, false_and, and_false, not_false_iff, and_self]

/-! ### Equality up to NaN -/

/-- Whether two numbers are equal, where NaN is equal to itself. -/
def Same (x y : Float) : Prop := x == y ∨ x.isNaN ∧ y.isNaN

instance : DecidableRel Same := fun _ _ => inferInstanceAs (Decidable (_ ∨ _))

lemma same_iff : Same x y ↔ x.isNaN = y.isNaN ∧ (x.isNaN = false → rank x = rank y) := by
  unfold Same
  rw [beq_iff]
  cases x.isNaN <;> cases y.isNaN <;> simp

lemma not_beq_of_isNaN (h : y.isNaN) : ¬ x == y := by
  simp only [beq_iff, h, Bool.true_eq_false, false_and, and_false, not_false_iff]

lemma same_refl (x : Float) : Same x x := same_iff.mpr ⟨rfl, fun _ => rfl⟩

lemma same_comm : Same x y ↔ Same y x := by
  simp only [same_iff]
  constructor <;> exact fun ⟨h, hrank⟩ => ⟨h.symm, fun hnan => (hrank (h.trans hnan)).symm⟩

lemma same_iff_beq (h : y.isNaN = false) : Same x y ↔ x == y :=
  or_iff_left fun hnan => Bool.eq_false_iff.mp h hnan.2

lemma beq_self (h : x.isNaN = false) : x == x := beq_iff.mpr ⟨h, h, rfl⟩

lemma isNaN_iff_eq_nan : x.isNaN ↔ x = nan := by
  have hnan : nan = Float.nan := by decide
  rw [Float.isNaN_eq_decide_eq_nan, decide_eq_true_iff, hnan]

end InfixCalc.Number
