import HmcClient.Number.Binary64
import Mathlib.Data.Nat.Log
import Mathlib.Data.Rat.Cast.Order
import Mathlib.Algebra.Order.Field.Power
import Mathlib.Tactic.Linarith
import Mathlib.Tactic.Ring
import Mathlib.Tactic.FieldSimp
import Mathlib.Tactic.Positivity
import Mathlib.Tactic.NormNum

/-!
# The double nearest to an integer

`Binary64.ofInt` rounds once, at the exponent that leaves 53 bits. The quotient at this exponent is
rounded to the nearest natural number, so no multiple of the power of two is nearer. What is left
are the doubles of smaller exponents. They are all at most `2 ^ 52` at this exponent, which is
itself such a multiple and not beyond the integer.
-/

namespace HmcClient

namespace Binary64

/-! ## What doubles stand for -/

/-- What a finite number stands for. -/
def toRat : Binary64 → ℚ
  | finite negative significand exponent =>
    (if negative then -1 else 1) * significand * (2 : ℚ) ^ exponent
  | _ => 0

/-- Whether a number is one of the finite doubles, by the ranges of its parts. -/
def Representable : Binary64 → Prop
  | finite _ significand exponent =>
    significand < significandBound ∧ minExponent ≤ exponent ∧ exponent ≤ maxExponent
  | _ => False

instance (x : Binary64) : Decidable x.Representable := by
  cases x <;> unfold Representable <;> infer_instance

/-- Whether no finite double is nearer to `q` than this one. -/
def IsNearest (x : Binary64) (q : ℚ) : Prop :=
  x.Representable ∧ ∀ z : Binary64, z.Representable → |x.toRat - q| ≤ |z.toRat - q|

theorem Representable.isFinite {x : Binary64} (h : x.Representable) : x.isFinite = true := by
  cases x with
  | finite => rfl
  | nan => exact h.elim
  | infinite => exact h.elim

theorem isNearest_toRat {x : Binary64} (h : x.Representable) : x.IsNearest x.toRat :=
  ⟨h, fun _ _ => by rw [sub_self, abs_zero]; exact abs_nonneg _⟩

theorem Representable.neg {x : Binary64} (h : x.Representable) : x.neg.Representable := by
  cases x <;> exact h

theorem toRat_neg (x : Binary64) : x.neg.toRat = -x.toRat := by
  cases x with
  | finite negative significand exponent => cases negative <;> simp [Binary64.neg, toRat]
  | nan => simp [Binary64.neg, toRat]
  | infinite => simp [Binary64.neg, toRat]

theorem IsNearest.neg {x : Binary64} {q : ℚ} (h : x.IsNearest q) : x.neg.IsNearest (-q) := by
  refine ⟨h.1.neg, fun z hz => ?_⟩
  have hmirror := h.2 z.neg hz.neg
  rw [toRat_neg] at hmirror ⊢
  rw [show -x.toRat - -q = -(x.toRat - q) by ring, abs_neg,
    show z.toRat - -q = -(-z.toRat - q) by ring, abs_neg]
  exact hmirror

/-! ## The rounded quotient -/

theorem divToEven_error {den : Nat} (hden : 0 < den) (num : Nat) :
    2 * |(num : ℤ) - divToEven num den * den| ≤ den := by
  have hparts : (num : ℤ) = (num / den : Nat) * den + (num % den : Nat) := by
    exact_mod_cast (Nat.div_add_mod' num den).symm
  have hlt : num % den < den := Nat.mod_lt _ hden
  unfold divToEven
  dsimp only
  split
  · rename_i hup
    rw [show (num : ℤ) - (num / den + 1 : Nat) * den = -(den - (num % den : Nat) : ℤ) by
      push_cast at hparts ⊢; linarith, abs_neg, abs_of_nonneg (by omega)]
    omega
  · rename_i hdown
    rw [show (num : ℤ) - (num / den : Nat) * den = (num % den : Nat) by linarith,
      abs_of_nonneg (by omega)]
    omega

/-- No other multiple of the denominator is nearer to the numerator. -/
theorem divToEven_nearest {den : Nat} (hden : 0 < den) (num : Nat) (k : ℤ) :
    |(divToEven num den : ℤ) * den - num| ≤ |k * den - num| := by
  have herror := divToEven_error hden num
  rw [abs_sub_comm] at herror
  generalize (divToEven num den : ℤ) = q at herror ⊢
  by_cases hk : k = q
  · rw [hk]
  · -- Another multiple is a whole denominator away from this one.
    have hapart : (den : ℤ) ≤ |(k - q) * den| := by
      rw [abs_mul, Nat.abs_cast]
      exact le_mul_of_one_le_left (Int.natCast_nonneg _) (Int.one_le_abs (sub_ne_zero.2 hk))
    have htriangle : |(k - q) * den| ≤ |k * den - num| + |q * den - num| := by
      rw [show (k - q) * (den : ℤ) = (k * den - num) - (q * den - num) by ring]
      exact abs_sub _ _
    linarith

theorem divToEven_bounds {num den low high : Nat} (hden : 0 < den) (hlow : low * den ≤ num)
    (hhigh : num < high * den) : low ≤ divToEven num den ∧ divToEven num den ≤ high := by
  have hquotient : low ≤ num / den := (Nat.le_div_iff_mul_le hden).2 hlow
  have hbelow : num / den < high := (Nat.div_lt_iff_lt_mul hden).2 hhigh
  unfold divToEven
  dsimp only
  split <;> omega

/-! ## The exponent of an integer -/

/-- The quotient at an exponent, as a fraction in lowest terms or not. -/
theorem unscale_cast (num : Nat) (scale : ℤ) : 0 < (unscale num 1 scale).2 ∧
    ((unscale num 1 scale).1 : ℚ) = num / (2 : ℚ) ^ scale * (unscale num 1 scale).2 := by
  unfold unscale
  split
  · rename_i hscale
    obtain ⟨k, rfl⟩ := Int.eq_ofNat_of_zero_le hscale
    refine ⟨by simp, ?_⟩
    simp only [Int.toNat_natCast, one_mul, Nat.pow_eq, Nat.cast_pow, Nat.cast_ofNat, zpow_natCast]
    field_simp
  · rename_i hscale
    obtain ⟨k, rfl⟩ : ∃ k : Nat, scale = -k := ⟨(-scale).toNat, by omega⟩
    refine ⟨Nat.one_pos, ?_⟩
    simp only [neg_neg, Int.toNat_natCast, Nat.pow_eq, Nat.cast_mul, Nat.cast_pow,
      Nat.cast_ofNat, Nat.cast_one, mul_one, zpow_neg, zpow_natCast, div_inv_eq_mul]

/-- The power of two that an integer reaches. -/
theorem log2_bounds {a : Nat} (ha : a ≠ 0) : (2 : ℚ) ^ (Nat.log2 a : ℤ) ≤ a ∧
    (a : ℚ) < (2 : ℚ) ^ ((Nat.log2 a : ℤ) + 1) := by
  refine ⟨?_, ?_⟩
  · rw [zpow_natCast]
    exact_mod_cast Nat.log2_self_le ha
  · rw [show ((Nat.log2 a : ℤ) + 1) = ((Nat.log2 a + 1 : Nat) : ℤ) by push_cast; ring, zpow_natCast]
    exact_mod_cast Nat.lt_log2_self

/-- Exponents below that of the integer's leading bit leave it with many bits. -/
theorem unscale_bounds {a : Nat} (ha : a ≠ 0) (k : Nat) :
    2 ^ k * (unscale a 1 ((Nat.log2 a : ℤ) - k)).2 ≤ (unscale a 1 ((Nat.log2 a : ℤ) - k)).1 ∧
      (unscale a 1 ((Nat.log2 a : ℤ) - k)).1 <
        2 ^ (k + 1) * (unscale a 1 ((Nat.log2 a : ℤ) - k)).2 := by
  obtain ⟨hden, hcast⟩ := unscale_cast a ((Nat.log2 a : ℤ) - k)
  obtain ⟨hlow, hhigh⟩ := log2_bounds ha
  generalize unscale a 1 ((Nat.log2 a : ℤ) - k) = parts at hden hcast ⊢
  have hpositive : (0 : ℚ) < (2 : ℚ) ^ ((Nat.log2 a : ℤ) - k) := by positivity
  have hdenRat : (0 : ℚ) < parts.2 := by exact_mod_cast hden
  have hlowQuotient : (2 : ℚ) ^ k ≤ a / (2 : ℚ) ^ ((Nat.log2 a : ℤ) - k) := by
    rw [le_div_iff₀ hpositive, ← zpow_natCast, ← zpow_add₀ two_ne_zero]
    simpa using hlow
  have hhighQuotient : a / (2 : ℚ) ^ ((Nat.log2 a : ℤ) - k) < (2 : ℚ) ^ (k + 1) := by
    rw [div_lt_iff₀ hpositive, ← zpow_natCast, ← zpow_add₀ two_ne_zero]
    have hexponent : ((k + 1 : Nat) : ℤ) + ((Nat.log2 a : ℤ) - k) = (Nat.log2 a : ℤ) + 1 := by
      push_cast; ring
    rw [hexponent]
    exact hhigh
  have hlowRat : ((2 ^ k * parts.2 : Nat) : ℚ) ≤ parts.1 := by
    rw [hcast]; push_cast
    exact mul_le_mul_of_nonneg_right hlowQuotient hdenRat.le
  have hhighRat : (parts.1 : ℚ) < (2 ^ (k + 1) * parts.2 : Nat) := by
    rw [hcast]; push_cast
    exact mul_lt_mul_of_pos_right hhighQuotient hdenRat
  exact ⟨by exact_mod_cast hlowRat, by exact_mod_cast hhighRat⟩

theorem exponentOf_one {a : Nat} (ha : a ≠ 0) : exponentOf a 1 = (Nat.log2 a : ℤ) - 52 := by
  have hlow : max minExponent ((Nat.log2 a : ℤ) - (Nat.log2 1 : ℤ) - 53) =
      (Nat.log2 a : ℤ) - (53 : Nat) := by
    have hone : Nat.log2 1 = 0 := by decide
    rw [hone]
    unfold minExponent
    omega
  obtain ⟨hmany, -⟩ := unscale_bounds ha 53
  obtain ⟨hden, -⟩ := unscale_cast a ((Nat.log2 a : ℤ) - (53 : Nat))
  unfold exponentOf
  dsimp only
  rw [hlow]
  have hquotient : ¬(unscale a 1 ((Nat.log2 a : ℤ) - (53 : Nat))).1 /
      (unscale a 1 ((Nat.log2 a : ℤ) - (53 : Nat))).2 < significandBound := by
    rw [not_lt, Nat.le_div_iff_mul_le hden]
    exact hmany
  rw [if_neg hquotient]
  push_cast
  ring

/-! ## Rounding an integer -/

/-- The rounded quotient of an integer at its exponent. -/
def roundedAt (a : Nat) : Nat :=
  divToEven (unscale a 1 ((Nat.log2 a : ℤ) - 52)).1 (unscale a 1 ((Nat.log2 a : ℤ) - 52)).2

theorem roundedAt_bounds {a : Nat} (ha : a ≠ 0) :
    leastNormal ≤ roundedAt a ∧ roundedAt a ≤ significandBound := by
  obtain ⟨hden, -⟩ := unscale_cast a ((Nat.log2 a : ℤ) - 52)
  obtain ⟨hlow, hhigh⟩ := unscale_bounds ha 52
  exact divToEven_bounds hden hlow hhigh

/-- No multiple of the power of two is nearer than the rounded quotient. -/
theorem roundedAt_nearest (a : Nat) (k : ℤ) :
    |(roundedAt a : ℚ) * (2 : ℚ) ^ ((Nat.log2 a : ℤ) - 52) - a| ≤
      |(k : ℚ) * (2 : ℚ) ^ ((Nat.log2 a : ℤ) - 52) - a| := by
  obtain ⟨hden, hcast⟩ := unscale_cast a ((Nat.log2 a : ℤ) - 52)
  have hnearest := divToEven_nearest hden (unscale a 1 ((Nat.log2 a : ℤ) - 52)).1 k
  rw [← roundedAt] at hnearest
  generalize unscale a 1 ((Nat.log2 a : ℤ) - 52) = parts at hden hcast hnearest
  have hunit : (0 : ℚ) < (2 : ℚ) ^ ((Nat.log2 a : ℤ) - 52) := by positivity
  generalize (2 : ℚ) ^ ((Nat.log2 a : ℤ) - 52) = unit at hcast hunit ⊢
  have hdenRat : (0 : ℚ) < parts.2 := by exact_mod_cast hden
  -- Both distances are those of the quotient, scaled by the same positive factor.
  have hscaled (m : ℤ) :
      |(m : ℚ) * unit - a| * (parts.2 / unit) = |(m : ℚ) * parts.2 - parts.1| := by
    rw [← abs_of_pos (div_pos hdenRat hunit), ← abs_mul, hcast]
    congr 1
    field_simp
  have hrational :
      |((roundedAt a : ℤ) : ℚ) * parts.2 - parts.1| ≤ |(k : ℚ) * parts.2 - parts.1| := by
    exact_mod_cast hnearest
  rw [← hscaled, ← hscaled] at hrational
  exact le_of_mul_le_mul_right hrational (div_pos hdenRat hunit)

/-- No finite double is nearer than the rounded quotient. -/
theorem roundedAt_nearest_double {a : Nat} (ha : a ≠ 0) {z : Binary64} (hz : z.Representable) :
    |(roundedAt a : ℚ) * (2 : ℚ) ^ ((Nat.log2 a : ℤ) - 52) - a| ≤ |z.toRat - a| := by
  cases z with
  | nan => exact hz.elim
  | infinite => exact hz.elim
  | finite negative m e =>
      by_cases he : (Nat.log2 a : ℤ) - 52 ≤ e
      · -- A double of no smaller exponent is a multiple of the power of two.
        obtain ⟨j, hj⟩ := Int.le.dest he
        have hmultiple : (finite negative m e).toRat =
            (((if negative then -1 else 1) * m * 2 ^ j : ℤ) : ℚ) *
              (2 : ℚ) ^ ((Nat.log2 a : ℤ) - 52) := by
          rw [toRat, ← hj, zpow_add₀ two_ne_zero, zpow_natCast]
          cases negative <;> push_cast <;> ring
        rw [hmultiple]
        exact roundedAt_nearest a _
      · -- All others are at most the least integer with as many bits.
        have hleast : ((leastNormal : ℤ) : ℚ) * (2 : ℚ) ^ ((Nat.log2 a : ℤ) - 52) =
            (2 : ℚ) ^ (Nat.log2 a : ℤ) := by
          rw [show ((leastNormal : ℤ) : ℚ) = (2 : ℚ) ^ (52 : ℤ) by norm_num [leastNormal],
            ← zpow_add₀ two_ne_zero]
          congr 1
          ring
        have hbelow : (finite negative m e).toRat ≤
            ((leastNormal : ℤ) : ℚ) * (2 : ℚ) ^ ((Nat.log2 a : ℤ) - 52) :=
          calc (finite negative m e).toRat ≤ m * (2 : ℚ) ^ e := by
                rw [toRat]
                cases negative
                · simp
                · have : (0 : ℚ) ≤ m * (2 : ℚ) ^ e := by positivity
                  simp only [if_true]
                  linarith
            _ ≤ (2 : ℚ) ^ (53 : ℤ) * (2 : ℚ) ^ ((Nat.log2 a : ℤ) - 53) := by
                refine mul_le_mul ?_ (zpow_le_zpow_right₀ one_le_two (by omega)) (by positivity)
                  (by positivity)
                have hbits : (m : ℚ) ≤ significandBound := by exact_mod_cast hz.1.le
                exact hbits.trans (by norm_num [significandBound])
            _ = ((leastNormal : ℤ) : ℚ) * (2 : ℚ) ^ ((Nat.log2 a : ℤ) - 52) := by
                rw [hleast, ← zpow_add₀ two_ne_zero]
                congr 1
                ring
        have hreached := (log2_bounds ha).1
        rw [← hleast] at hreached
        calc |(roundedAt a : ℚ) * (2 : ℚ) ^ ((Nat.log2 a : ℤ) - 52) - a|
            ≤ |((leastNormal : ℤ) : ℚ) * (2 : ℚ) ^ ((Nat.log2 a : ℤ) - 52) - a| :=
              roundedAt_nearest a leastNormal
          _ = a - ((leastNormal : ℤ) : ℚ) * (2 : ℚ) ^ ((Nat.log2 a : ℤ) - 52) := by
              rw [abs_of_nonpos (by linarith), neg_sub]
          _ ≤ a - (finite negative m e).toRat := by linarith
          _ ≤ |(finite negative m e).toRat - a| := by rw [abs_sub_comm]; exact le_abs_self _

/-- An integer is rounded at its exponent; 54 bits are carried over to the next one. -/
theorem ofRatio_one {a : Nat} (ha : a ≠ 0) (hbound : a < 2 ^ 64) :
    (ofRatio false a 1).Representable ∧
      (ofRatio false a 1).toRat = (roundedAt a : ℚ) * (2 : ℚ) ^ ((Nat.log2 a : ℤ) - 52) := by
  have hlog : Nat.log2 a < 64 := (Nat.log2_lt ha).2 hbound
  obtain ⟨-, hhigh⟩ := roundedAt_bounds ha
  unfold ofRatio
  rw [if_neg ha, exponentOf_one ha]
  dsimp only
  rw [← roundedAt]
  by_cases hbits : roundedAt a < significandBound
  · rw [if_pos hbits]
    dsimp only
    rw [if_neg (by unfold maxExponent; omega)]
    refine ⟨⟨hbits, by unfold minExponent; omega, by unfold maxExponent; omega⟩, ?_⟩
    simp [toRat]
  · have hcarried : roundedAt a = significandBound := by omega
    rw [if_neg hbits]
    dsimp only
    rw [if_neg (by unfold maxExponent; omega)]
    refine ⟨⟨by decide, by unfold minExponent; omega, by unfold maxExponent; omega⟩, ?_⟩
    rw [toRat, hcarried, zpow_add_one₀ two_ne_zero, show ((significandBound : Nat) : ℚ) =
      leastNormal * 2 by norm_num [significandBound, leastNormal]]
    simp only [Bool.false_eq_true, if_false]
    ring

theorem ofRatio_neg (negative : Bool) (num den : Nat) :
    (ofRatio negative num den).neg = ofRatio (!negative) num den := by
  unfold ofRatio
  by_cases hzero : num = 0
  · rw [if_pos hzero, if_pos hzero]
    rfl
  · rw [if_neg hzero, if_neg hzero]
    dsimp only
    rw [apply_ite neg]
    rfl

/-- An integer of 64 bits is rounded to the nearest double. -/
theorem ofInt_isNearest {n : ℤ} (h : n.natAbs < 2 ^ 64) : (ofInt n).IsNearest n := by
  have hnatural {a : Nat} (ha : a < 2 ^ 64) : (ofRatio false a 1).IsNearest a := by
    by_cases hzero : a = 0
    · subst hzero
      have hexact : (ofRatio false 0 1).toRat = ((0 : Nat) : ℚ) := by simp [ofRatio, zero, toRat]
      rw [← hexact]
      exact isNearest_toRat (by decide)
    · obtain ⟨hrepresentable, hvalue⟩ := ofRatio_one hzero ha
      exact ⟨hrepresentable, fun z hz => hvalue ▸ roundedAt_nearest_double hzero hz⟩
  by_cases hneg : n < 0
  · rw [ofInt, decide_eq_true hneg, ← Bool.not_false, ← ofRatio_neg,
      show (n : ℚ) = -(n.natAbs : ℚ) by
        rw [← Int.cast_natCast, Int.natCast_natAbs, abs_of_neg hneg]; push_cast; ring]
    exact (hnatural h).neg
  · rw [ofInt, decide_eq_false hneg, show (n : ℚ) = (n.natAbs : ℚ) by
        rw [← Int.cast_natCast, Int.natCast_natAbs, abs_of_nonneg (not_lt.1 hneg)]]
    exact hnatural h

end Binary64

end HmcClient
