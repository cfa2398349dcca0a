/-
# Rounding to the nearest number

A positive quotient is rounded to the binary64 number that no other is nearer to, and of two
equally near ones to the one with the even significand. The numbers of one exponent are the
integers scaled by a power of two, where the nearest one is found by division; numbers with a
smaller exponent lie below all quotients that are scaled to this grid.
-/

import Mathlib.Algebra.Order.Field.Power
import Mathlib.Data.Rat.Floor
import Mathlib.Tactic.FieldSimp
import Mathlib.Tactic.Linarith
import Mathlib.Tactic.Positivity
import Mathlib.Tactic.Ring
import TreeLowering.Number.Binary64

namespace TreeLowering.Number

variable {n d : ℕ} {q : ℚ} {e : ℤ}

/-! ## Quotients -/

/-- A quotient is its integer part and a fraction below one. -/
theorem natCast_div_eq (n : ℕ) (hd : 0 < d) :
    (n / d : ℚ) = (n / d : ℕ) + ((n % d : ℕ) : ℚ) / d := by
  have hne : (d : ℚ) ≠ 0 := by exact_mod_cast hd.ne'
  field_simp
  exact_mod_cast (Nat.div_add_mod n d).symm

/-- The nearest integer is at most one half away, and it is even if it is that far. -/
theorem roundQuotient_spec (n : ℕ) (hd : 0 < d) :
    |(n / d : ℚ) - roundQuotient n d| ≤ 1 / 2 ∧
      (|(n / d : ℚ) - roundQuotient n d| = 1 / 2 → Even (roundQuotient n d)) := by
  have hpos : (0 : ℚ) < d := by exact_mod_cast hd
  have hfraction : ((n % d : ℕ) : ℚ) / d < 1 := by
    rw [div_lt_one hpos]
    exact_mod_cast Nat.mod_lt n hd
  have hnonneg : 0 ≤ ((n % d : ℕ) : ℚ) / d := by positivity
  have hbelow : 2 * (n % d) < d ↔ ((n % d : ℕ) : ℚ) / d < 1 / 2 := by
    rw [div_lt_iff₀ hpos, ← Nat.cast_lt (α := ℚ)]
    push_cast
    constructor <;> intro h <;> linarith
  have hhalf : 2 * (n % d) = d ↔ ((n % d : ℕ) : ℚ) / d = 1 / 2 := by
    rw [div_eq_iff hpos.ne', ← Nat.cast_inj (R := ℚ)]
    push_cast
    constructor <;> intro h <;> linarith
  rw [natCast_div_eq n hd]
  simp only [roundQuotient, hbelow, hhalf, ← Nat.even_iff]
  generalize ((n % d : ℕ) : ℚ) / d = fraction at *
  split
  case isTrue hdown =>
    rw [add_sub_cancel_left, abs_of_nonneg hnonneg]
    refine ⟨?_, fun htie => (hdown.resolve_left (by linarith)).2⟩
    rcases hdown with hlt | ⟨heq, -⟩ <;> linarith
  case isFalse hup =>
    rw [not_or, not_lt, not_and] at hup
    push_cast
    rw [add_sub_add_left_eq_sub, abs_of_nonpos (by linarith)]
    refine ⟨by linarith, fun htie => ?_⟩
    have hodd : ¬ Even (n / d) := hup.2 (by linarith)
    exact Nat.even_add_one.mpr hodd

/-- No other integer is as near as the rounded quotient, unless that is even. -/
theorem roundQuotient_nearest (n : ℕ) (hd : 0 < d) {j : ℤ} (hj : j ≠ roundQuotient n d) :
    |(n / d : ℚ) - roundQuotient n d| < |(n / d : ℚ) - j| ∨
      |(n / d : ℚ) - roundQuotient n d| = |(n / d : ℚ) - j| ∧ Even (roundQuotient n d) := by
  obtain ⟨hnear, heven⟩ := roundQuotient_spec n hd
  -- distinct integers are at least one apart
  have hapart : (1 : ℚ) ≤ |(roundQuotient n d : ℚ) - j| := by
    have hint : 1 ≤ |(roundQuotient n d : ℤ) - j| := Int.one_le_abs (sub_ne_zero.mpr hj.symm)
    exact_mod_cast hint
  have htriangle : |(roundQuotient n d : ℚ) - j| ≤
      |(n / d : ℚ) - roundQuotient n d| + |(n / d : ℚ) - j| := by
    rw [abs_sub_comm (n / d : ℚ)]
    exact abs_sub_le _ _ _
  rcases lt_or_eq_of_le (show |(n / d : ℚ) - roundQuotient n d| ≤ |(n / d : ℚ) - j| by linarith)
    with hlt | heq
  · exact .inl hlt
  · exact .inr ⟨heq, heven (by linarith)⟩

/-- Scaling a quotient divides it by a power of the base. -/
theorem scale_spec {base : ℕ} (hbase : 0 < base) (n : ℕ) (hd : 0 < d) (e : ℤ) :
    0 < (scale base n d e).2 ∧
      ((scale base n d e).1 / (scale base n d e).2 : ℚ) = n / d / (base : ℚ) ^ e := by
  have hne : (base : ℚ) ≠ 0 := by exact_mod_cast hbase.ne'
  rw [scale]
  split
  case isTrue hneg =>
    obtain ⟨k, rfl⟩ := Int.exists_eq_neg_ofNat hneg.le
    refine ⟨hd, ?_⟩
    rw [Int.natAbs_neg, Int.natAbs_natCast, zpow_neg, zpow_natCast, div_inv_eq_mul, Nat.pow_eq]
    push_cast
    ring
  case isFalse hnonneg =>
    obtain ⟨k, rfl⟩ := Int.eq_ofNat_of_zero_le (not_lt.mp hnonneg)
    refine ⟨Nat.mul_pos hd (Nat.pow_pos hbase), ?_⟩
    rw [Int.natAbs_natCast, zpow_natCast, Nat.pow_eq, div_div]
    push_cast
    rfl

theorem zpow_log2_spec (hn : 0 < n) :
    (2 : ℚ) ^ (n.log2 : ℤ) ≤ n ∧ (n : ℚ) < 2 ^ ((n.log2 : ℤ) + 1) := by
  rw [← Nat.cast_succ, zpow_natCast, zpow_natCast]
  exact ⟨by exact_mod_cast Nat.log2_self_le hn.ne', by exact_mod_cast Nat.lt_log2_self⟩

/-- A positive quotient lies between two consecutive powers of two. -/
theorem floorLog2_spec (hn : 0 < n) (hd : 0 < d) :
    (2 : ℚ) ^ floorLog2 n d ≤ n / d ∧ (n / d : ℚ) < 2 ^ (floorLog2 n d + 1) := by
  have htwo : (2 : ℚ) ≠ 0 := two_ne_zero
  obtain ⟨hlowN, hhighN⟩ := zpow_log2_spec hn
  obtain ⟨hlowD, hhighD⟩ := zpow_log2_spec hd
  have hposD : (0 : ℚ) < d := by exact_mod_cast hd
  -- the quotient of the leading powers is at most one step too high
  have hhigh : (n / d : ℚ) < 2 ^ ((n.log2 : ℤ) - d.log2 + 1) := by
    rw [sub_add_eq_add_sub, zpow_sub₀ htwo]
    exact div_lt_div₀ hhighN hlowD (by positivity) (by positivity)
  have hlow : (2 : ℚ) ^ ((n.log2 : ℤ) - d.log2 - 1) ≤ n / d := by
    rw [sub_sub, zpow_sub₀ htwo]
    exact div_le_div₀ (by positivity) hlowN hposD hhighD.le
  obtain ⟨hscaled, hvalue⟩ := scale_spec Nat.two_pos n hd ((n.log2 : ℤ) - d.log2)
  rw [Nat.cast_ofNat] at hvalue
  have htest : (scale 2 n d ((n.log2 : ℤ) - d.log2)).2 ≤ (scale 2 n d ((n.log2 : ℤ) - d.log2)).1 ↔
      (2 : ℚ) ^ ((n.log2 : ℤ) - d.log2) ≤ n / d := by
    have hone : 1 ≤ (n / d / (2 : ℚ) ^ ((n.log2 : ℤ) - d.log2)) ↔
        (2 : ℚ) ^ ((n.log2 : ℤ) - d.log2) ≤ n / d := one_le_div (by positivity)
    rw [← hone, ← hvalue, one_le_div (by exact_mod_cast hscaled), Nat.cast_le]
  rw [floorLog2]
  dsimp only
  split
  case isTrue hup => exact ⟨htest.mp hup, hhigh⟩
  case isFalse hdown =>
    rw [sub_add_cancel]
    exact ⟨hlow, not_le.mp (mt htest.mpr hdown)⟩

/-! ## Values -/

namespace Binary64

variable {x y : Binary64}

/-- The number that is represented. -/
def value (x : Binary64) : ℚ :=
  (if x.negative then -1 else 1) * x.significand * 2 ^ x.exponent

/-- No number is nearer to `q`, and one that is as near only if the significand is even. -/
def IsNearest (q : ℚ) (x : Binary64) : Prop :=
  ∀ y : Binary64, y.value ≠ x.value →
    |q - x.value| < |q - y.value| ∨ |q - x.value| = |q - y.value| ∧ Even x.significand

theorem IsNearest.abs_sub_le (h : x.IsNearest q) (y : Binary64) :
    |q - x.value| ≤ |q - y.value| := by
  by_cases hsame : y.value = x.value
  · rw [hsame]
  · exact (h y hsame).elim le_of_lt fun htie => htie.1.le

theorem value_of_positive (h : x.negative = false) : x.value = x.significand * 2 ^ x.exponent := by
  simp [value, h]

theorem abs_value (x : Binary64) : |x.value| = x.significand * 2 ^ x.exponent := by
  have hpos : (0 : ℚ) ≤ x.significand * 2 ^ x.exponent := by positivity
  rw [value, mul_assoc, abs_mul, abs_of_nonneg hpos]
  split <;> simp

theorem abs_value_lt (x : Binary64) : |x.value| < 2 ^ (53 + x.exponent) := by
  rw [abs_value, zpow_add₀ two_ne_zero]
  have hsmall : (x.significand : ℚ) < 2 ^ (53 : ℤ) := by exact_mod_cast x.canonical.1
  gcongr

/-- The numbers whose exponent is less than that of a grid lie below all full significands. -/
theorem value_lt_of_exponent_lt (h : x.exponent < e) : x.value < 2 ^ 52 * 2 ^ e := by
  calc x.value ≤ |x.value| := le_abs_self _
    _ < 2 ^ (53 + x.exponent) := x.abs_value_lt
    _ ≤ 2 ^ (52 + e) := zpow_le_zpow_right₀ one_le_two (by omega)
    _ = 2 ^ 52 * 2 ^ e := by rw [zpow_add₀ two_ne_zero]; norm_cast

/-- The numbers whose exponent is not less than that of a grid lie on the grid. -/
theorem exists_value_eq (h : e ≤ x.exponent) :
    ∃ j : ℤ, x.value = j * 2 ^ e ∧ (Even x.significand → Even j) := by
  obtain ⟨k, hk⟩ := Int.eq_ofNat_of_zero_le (sub_nonneg.mpr h)
  have hpower : (2 : ℚ) ^ x.exponent = 2 ^ k * 2 ^ e := by
    rw [← zpow_natCast, ← zpow_add₀ two_ne_zero, ← hk, sub_add_cancel]
  refine ⟨(if x.negative then -1 else 1) * x.significand * 2 ^ k, ?_, fun heven => ?_⟩
  · rw [value, hpower]
    push_cast
    ring
  · exact (((Int.even_coe_nat _).mpr heven).mul_left _).mul_right _

/-- The nearest point of a grid is the nearest number, if the numbers off the grid lie below. -/
theorem isNearest_of_grid {s : ℤ} (hx : x.value = s * 2 ^ e)
    (hgrid : ∀ j : ℤ, j ≠ s → |q / 2 ^ e - s| < |q / 2 ^ e - j| ∨
      |q / 2 ^ e - s| = |q / 2 ^ e - j| ∧ Even x.significand)
    (hlow : e = -1074 ∨ 2 ^ 52 ≤ q / 2 ^ e) : x.IsNearest q := by
  have hpos : (0 : ℚ) < 2 ^ e := by positivity
  have hscale (j : ℤ) : |q - j * 2 ^ e| = |q / 2 ^ e - j| * 2 ^ e := by
    rw [← abs_of_pos hpos, ← abs_mul, abs_of_pos hpos, sub_mul, div_mul_cancel₀ _ hpos.ne']
  intro y hy
  by_cases hexponent : e ≤ y.exponent
  · obtain ⟨j, hj, -⟩ := exists_value_eq hexponent
    have hne : j ≠ s := by
      rintro rfl
      exact hy (hj.trans hx.symm)
    rw [hx, hj, hscale, hscale, mul_lt_mul_iff_left₀ hpos, mul_left_inj' hpos.ne']
    exact hgrid j hne
  · -- the number lies below the least one with a full significand on the grid
    have hfull := hlow.resolve_left fun he => hexponent (he ▸ y.canonical.2.1)
    have hbelow : y.value < 2 ^ 52 * 2 ^ e := value_lt_of_exponent_lt (not_le.mp hexponent)
    have hscaled : 2 ^ 52 * 2 ^ e ≤ q := (le_div_iff₀ hpos).mp hfull
    have hgridpoint : |q - x.value| ≤ |q - 2 ^ 52 * 2 ^ e| := by
      have hpoint : |q / 2 ^ e - s| ≤ |q / 2 ^ e - (2 ^ 52 : ℤ)| := by
        by_cases hs : 2 ^ 52 = s
        · rw [hs]
        · exact (hgrid _ hs).elim le_of_lt fun htie => htie.1.le
      have hle := mul_le_mul_of_nonneg_right hpoint hpos.le
      rw [← hscale, ← hscale, ← hx] at hle
      exact_mod_cast hle
    left
    rw [abs_of_nonneg (sub_nonneg.mpr hscaled)] at hgridpoint
    rw [abs_of_nonneg (show 0 ≤ q - y.value by linarith)]
    linarith

/-! ## Rounding -/

theorem ofParts?_eq_some {negative : Bool} {significand : ℕ} {exponent : ℤ}
    (h : IsCanonical significand exponent) :
    ofParts? negative significand exponent = some ⟨negative, significand, exponent, h⟩ :=
  dif_pos h

/-- On the grid of the exponent that is chosen a quotient has at most 53 binary digits before
the point, and that many unless it is below all full significands. -/
theorem grid_bounds {k : ℤ} (hlow : 2 ^ k ≤ q) (hhigh : q < 2 ^ (k + 1))
    (he : e = max (k - 52) (-1074)) :
    q / 2 ^ e < 2 ^ 53 ∧ (e = -1074 ∨ 2 ^ 52 ≤ q / 2 ^ e) := by
  have hpos : (0 : ℚ) < 2 ^ e := by positivity
  constructor
  · rw [div_lt_iff₀ hpos]
    calc q < 2 ^ (k + 1) := hhigh
      _ ≤ 2 ^ (53 + e) := zpow_le_zpow_right₀ one_le_two (by omega)
      _ = 2 ^ 53 * 2 ^ e := by rw [zpow_add₀ two_ne_zero]; norm_cast
  · rcases max_choice (k - 52) (-1074) with hfull | hleast
    · right
      rw [le_div_iff₀ hpos]
      calc (2 ^ 52 * 2 ^ e : ℚ) = 2 ^ (52 + e) := by rw [zpow_add₀ two_ne_zero]; norm_cast
        _ ≤ 2 ^ k := zpow_le_zpow_right₀ one_le_two (by omega)
        _ ≤ q := hlow
    · exact .inl (he.trans hleast)

/-- A point of a grid is represented, with the next exponent if it needs another digit. -/
theorem exists_ofGrid {s : ℕ} (hle : s ≤ 2 ^ 53) (hleast : -1074 ≤ e) (hmost : e < 971)
    (hfull : e = -1074 ∨ 2 ^ 52 ≤ s) :
    ∃ x, (if s = 2 ^ 53 then ofParts? false (2 ^ 52) (e + 1) else ofParts? false s e) = some x ∧
      x.negative = false ∧ x.value = s * 2 ^ e ∧ (Even s → Even x.significand) := by
  split
  case isTrue hcarry =>
    have hcanonical : IsCanonical (2 ^ 52) (e + 1) :=
      ⟨by decide, by omega, by omega, .inr le_rfl⟩
    refine ⟨_, ofParts?_eq_some hcanonical, rfl, ?_, fun _ => show Even (2 ^ 52) by decide⟩
    rw [value, hcarry, zpow_add_one₀ two_ne_zero]
    push_cast
    ring
  case isFalse hsmall =>
    have hcanonical : IsCanonical s e := ⟨lt_of_le_of_ne hle hsmall, hleast, hmost.le, hfull⟩
    exact ⟨_, ofParts?_eq_some hcanonical, rfl, by simp [value], id⟩

/-- A positive quotient that is not too large is rounded to the nearest number. -/
theorem exists_ofQuotient? (hn : 0 < n) (hd : 0 < d) (hsmall : (n / d : ℚ) < 2 ^ 1000) :
    ∃ x, ofQuotient? false n d = some x ∧ x.negative = false ∧ x.IsNearest (n / d) := by
  obtain ⟨hlow, hhigh⟩ := floorLog2_spec hn hd
  have hk : floorLog2 n d < 1000 := by
    have hpower : (2 : ℚ) ^ floorLog2 n d < 2 ^ (1000 : ℤ) := hlow.trans_lt hsmall
    exact (zpow_lt_zpow_iff_right₀ one_lt_two).mp hpower
  set e := max (floorLog2 n d - 52) (-1074) with he
  obtain ⟨hbound, hfull⟩ := grid_bounds hlow hhigh he
  obtain ⟨hscaled, hvalue⟩ := scale_spec Nat.two_pos n hd e
  rw [Nat.cast_ofNat] at hvalue
  set s := roundQuotient (scale 2 n d e).1 (scale 2 n d e).2 with hs
  have hround := (roundQuotient_spec (scale 2 n d e).1 hscaled).1
  have hgrid {j : ℤ} (hj : j ≠ s) := roundQuotient_nearest (scale 2 n d e).1 hscaled hj
  rw [hvalue, ← hs, abs_le] at hround
  rw [hvalue, ← hs] at hgrid
  have hle : s ≤ 2 ^ 53 := by
    have hcast : (s : ℚ) < (2 ^ 53 : ℕ) + 1 := by
      push_cast
      linarith
    exact Nat.lt_succ_iff.mp (by exact_mod_cast hcast)
  have hfullNat : e = -1074 ∨ 2 ^ 52 ≤ s := by
    refine hfull.imp_right fun hfull => ?_
    have hcast : ((2 ^ 52 : ℕ) : ℚ) < s + 1 := by
      push_cast
      linarith
    exact Nat.lt_succ_iff.mp (by exact_mod_cast hcast)
  obtain ⟨x, hx, hpositive, hgridpoint, heven⟩ :=
    exists_ofGrid hle (by omega) (by omega) hfullNat
  refine ⟨x, hx, hpositive, isNearest_of_grid (s := s) hgridpoint (fun j hj => ?_) hfull⟩
  exact (hgrid hj).imp_right fun htie => ⟨htie.1, heven htie.2⟩

theorem value_zero : (zero false).value = 0 := by
  simp [value, zero]

/-- Below half of the least positive number, zero is the nearest one. -/
theorem isNearest_zero (hq : 0 ≤ q) (hsmall : q < 2 ^ (-1075 : ℤ)) : (zero false).IsNearest q := by
  have hhalf : q / 2 ^ (-1074 : ℤ) < 1 / 2 := by
    rw [div_lt_iff₀ (by positivity)]
    calc q < 2 ^ (-1075 : ℤ) := hsmall
      _ = 2 ^ (-1 + -1074 : ℤ) := rfl
      _ = 1 / 2 * 2 ^ (-1074 : ℤ) := by rw [zpow_add₀ two_ne_zero, zpow_neg_one, one_div]
  have hnonneg : 0 ≤ q / 2 ^ (-1074 : ℤ) := by positivity
  refine isNearest_of_grid (s := 0) (by simp [value_zero]) (fun j hj => .inl ?_) (.inl rfl)
  have hj : (1 : ℚ) ≤ |(j : ℚ)| := by exact_mod_cast Int.one_le_abs hj
  rw [Int.cast_zero, sub_zero, abs_of_nonneg hnonneg]
  linarith [abs_sub_abs_le_abs_sub (j : ℚ) (q / 2 ^ (-1074 : ℤ)),
    abs_sub_comm (j : ℚ) (q / 2 ^ (-1074 : ℤ)), abs_of_nonneg hnonneg]

end Binary64

/-! ## Decimals -/

/-- The number that a decimal stands for. -/
def Decimal.value (c : Decimal) : ℚ :=
  (if c.negative then -1 else 1) * c.coefficient * 10 ^ c.exponent

/-- The bounds beyond which no power is computed are outside the format. -/
theorem two_pow_lt_ten_pow : (2 : ℚ) ^ 1075 < 10 ^ 400 := by
  calc (2 : ℚ) ^ 1075 = (2 ^ 43) ^ 25 := by rw [← pow_mul]
    _ < (10 ^ 16) ^ 25 := pow_lt_pow_left₀ (by norm_num) (by norm_num) (by decide)
    _ = 10 ^ 400 := by rw [← pow_mul]

/-- A decimal that is not too large has an exponent within the upper bound. -/
theorem exponent_le_of_lt (hn : 0 < n) (h : (n * 10 ^ e : ℚ) < 2 ^ 1000) : e ≤ 400 := by
  have hone : (1 : ℚ) ≤ n := by exact_mod_cast hn
  by_contra hlarge
  refine absurd h (not_lt.mpr ?_)
  calc (2 ^ 1000 : ℚ) ≤ 2 ^ 1075 := pow_le_pow_right₀ one_le_two (by decide)
    _ ≤ 10 ^ (400 : ℤ) := two_pow_lt_ten_pow.le
    _ ≤ 10 ^ e := zpow_le_zpow_right₀ (by norm_num) (not_le.mp hlarge).le
    _ ≤ n * 10 ^ e := le_mul_of_one_le_left (by positivity) hone

/-- A decimal beyond the lower bound is less than half of the least positive number. -/
theorem mul_zpow_lt_of_lt (hn : 0 < n) (h : e + (n.log2 + 1) < -400) :
    (n * 10 ^ e : ℚ) < 2 ^ (-1075 : ℤ) := by
  calc (n * 10 ^ e : ℚ) < 2 ^ ((n.log2 : ℤ) + 1) * 10 ^ e := by
        gcongr
        exact (zpow_log2_spec hn).2
    _ ≤ 10 ^ ((n.log2 : ℤ) + 1) * 10 ^ e := by
        gcongr
        exact zpow_le_zpow_left₀ (by omega) (by norm_num) (by norm_num)
    _ = 10 ^ (e + (n.log2 + 1)) := by
        rw [← zpow_add₀ (by norm_num), add_comm]
    _ ≤ 10 ^ (-400 : ℤ) := zpow_le_zpow_right₀ (by norm_num) h.le
    _ < 2 ^ (-1075 : ℤ) := by
        rw [zpow_neg, zpow_neg]
        exact inv_strictAnti₀ (by positivity) two_pow_lt_ten_pow

/-- A decimal without a sign that is not too large is rounded to the nearest number. -/
theorem exists_ofDecimal? {c : Decimal} (hsign : c.negative = false) (hsmall : c.value < 2 ^ 1000) :
    ∃ x, Binary64.ofDecimal? c = some x ∧ x.negative = false ∧ x.IsNearest c.value := by
  have hvalue : c.value = c.coefficient * 10 ^ c.exponent := by simp [Decimal.value, hsign]
  rw [hvalue] at hsmall ⊢
  rw [Binary64.ofDecimal?, hsign]
  split
  case isTrue hzero =>
    refine ⟨_, rfl, rfl, Binary64.isNearest_zero ?_ ?_⟩
    · simp [hzero]
    · simp [hzero]
  case isFalse hpos =>
    replace hpos : 0 < c.coefficient := Nat.pos_of_ne_zero hpos
    rw [if_neg (not_lt.mpr (exponent_le_of_lt hpos hsmall))]
    split
    case isTrue htiny =>
      exact ⟨_, rfl, rfl, Binary64.isNearest_zero (by positivity) (mul_zpow_lt_of_lt hpos htiny)⟩
    case isFalse =>
      obtain ⟨hscaled, hquotient⟩ :=
        scale_spec (show 0 < 10 by decide) c.coefficient Nat.one_pos (-c.exponent)
      rw [Nat.cast_one, div_one, zpow_neg, div_inv_eq_mul, Nat.cast_ofNat] at hquotient
      have hnumerator : 0 < (scale 10 c.coefficient 1 (-c.exponent)).1 := by
        have hquotientPos : (0 : ℚ) < c.coefficient * 10 ^ c.exponent := by positivity
        rw [← hquotient, div_pos_iff_of_pos_right (by exact_mod_cast hscaled)] at hquotientPos
        exact_mod_cast hquotientPos
      rw [← hquotient] at hsmall ⊢
      exact Binary64.exists_ofQuotient? hnumerator hscaled hsmall

/-! ## Neighbours -/

namespace Binary64

variable {x y : Binary64}

theorem IsNearest.le_value (h : x.IsNearest q) (hy : y.value ≤ q) : y.value ≤ x.value := by
  by_contra hlt
  have hnear := h.abs_sub_le y
  rw [abs_of_nonneg (by linarith), abs_of_nonneg (by linarith)] at hnear
  linarith

theorem IsNearest.value_le (h : x.IsNearest q) (hy : q ≤ y.value) : x.value ≤ y.value := by
  by_contra hlt
  have hnear := h.abs_sub_le y
  rw [abs_of_nonpos (by linarith), abs_of_nonpos (by linarith)] at hnear
  linarith

theorem IsNearest.value_nonneg (h : x.IsNearest q) (hq : 0 ≤ q) : 0 ≤ x.value := by
  rw [← value_zero] at hq ⊢
  exact h.le_value hq

/-- A greater number has no smaller exponent. -/
theorem exponent_le_of_value_lt (hx : 0 ≤ x.value) (h : x.value < y.value) :
    x.exponent ≤ y.exponent := by
  by_contra hless
  have hfull : 2 ^ 52 ≤ x.significand :=
    x.canonical.2.2.2.resolve_left fun he => hless (he ▸ y.canonical.2.1)
  have hscaled : (2 ^ 52 * 2 ^ x.exponent : ℚ) ≤ x.significand * 2 ^ x.exponent := by
    gcongr
    exact_mod_cast hfull
  rw [← abs_value, abs_of_nonneg hx] at hscaled
  linarith [value_lt_of_exponent_lt (not_le.mp hless)]

/-- Between two numbers with even significands lies the successor of the smaller one. -/
theorem exists_between (hx : 0 ≤ x.value) (h : x.value < y.value) (hevenX : Even x.significand)
    (hevenY : Even y.significand) : ∃ z : Binary64, x.value < z.value ∧ z.value < y.value := by
  have hpos : (0 : ℚ) < 2 ^ x.exponent := by positivity
  have hvalue : x.value = x.significand * 2 ^ x.exponent := by
    rw [← abs_value, abs_of_nonneg hx]
  obtain ⟨j, hj, hevenJ⟩ := exists_value_eq (exponent_le_of_value_lt hx h)
  have hsuccessor : (x.significand : ℤ) + 1 < j := by
    have hlt : (x.significand : ℤ) < j := by
      rw [hvalue, hj, mul_lt_mul_iff_left₀ hpos] at h
      exact_mod_cast h
    have hodd : ¬ Even ((x.significand : ℤ) + 1) :=
      Int.not_even_iff_odd.mpr ((Int.even_coe_nat _).mpr hevenX).add_one
    have hne : (x.significand : ℤ) + 1 ≠ j := fun heq => hodd (heq ▸ hevenJ hevenY)
    omega
  have hcanonical : IsCanonical (x.significand + 1) x.exponent := by
    obtain ⟨hless, hleast, hmost, hfull⟩ := x.canonical
    have hcarry : x.significand + 1 ≠ 2 ^ 53 := fun heq =>
      Nat.not_even_iff_odd.mpr hevenX.add_one (heq ▸ (by decide))
    exact ⟨lt_of_le_of_ne hless hcarry, hleast, hmost, hfull.imp_right fun hfull => hfull.step⟩
  let z : Binary64 := ⟨false, x.significand + 1, x.exponent, hcanonical⟩
  have hz : z.value = (x.significand + 1) * 2 ^ x.exponent := by
    rw [value_of_positive rfl, Nat.cast_succ]
  refine ⟨z, ?_, ?_⟩
  · rw [hz, hvalue, mul_lt_mul_iff_left₀ hpos]
    exact lt_add_one _
  · rw [hz, hj, mul_lt_mul_iff_left₀ hpos]
    exact_mod_cast hsuccessor

/-- Of two nearest numbers none is greater: a number between them would be nearer. -/
theorem IsNearest.le_of_isNearest (hx : x.IsNearest q) (hy : y.IsNearest q) (hq : 0 ≤ q) :
    y.value ≤ x.value := by
  by_contra hlt
  rw [not_le] at hlt
  obtain ⟨htie, hevenX⟩ := (hx y hlt.ne').resolve_left (hy.abs_sub_le x).not_gt
  obtain ⟨-, hevenY⟩ := (hy x hlt.ne).resolve_left (hx.abs_sub_le y).not_gt
  have hmiddle : q - x.value = -(q - y.value) :=
    (abs_eq_abs.mp htie).resolve_left fun hsame => hlt.ne (by linarith)
  obtain ⟨z, hxz, hzy⟩ := exists_between (hx.value_nonneg hq) hlt hevenX hevenY
  have hnear := hx.abs_sub_le z
  rw [abs_of_nonneg (by linarith : 0 ≤ q - x.value)] at hnear
  have hbetween : |q - z.value| < q - x.value := abs_sub_lt_iff.mpr ⟨by linarith, by linarith⟩
  linarith

/-- The nearest number is determined, up to the sign of zero. -/
theorem IsNearest.value_unique (hx : x.IsNearest q) (hy : y.IsNearest q) (hq : 0 ≤ q) :
    x.value = y.value :=
  le_antisymm (hy.le_of_isNearest hx hq) (hx.le_of_isNearest hy hq)

/-- Dropping the fraction of a number without a sign leaves its integer part. -/
theorem truncate_eq_floor (h : x.negative = false) : x.truncate = ⌊x.value⌋ := by
  obtain ⟨hscaled, hquotient⟩ := scale_spec Nat.two_pos x.significand Nat.one_pos (-x.exponent)
  rw [Nat.cast_one, div_one, zpow_neg, div_inv_eq_mul, Nat.cast_ofNat] at hquotient
  rw [value_of_positive h, ← hquotient, Rat.floor_natCast_div_natCast, truncate, toQuotient, h]
  rfl

/-- A positive number of at most 53 binary digits is moved up to a full significand. -/
theorem exists_shift (hpos : 0 < n) (hn : n < 2 ^ 53) :
    ∃ t ≤ 52, 2 ^ 52 ≤ n * 2 ^ t ∧ (n + 1) * 2 ^ t ≤ 2 ^ 53 := by
  have hlog : n.log2 < 53 := (Nat.log2_lt hpos.ne').mpr hn
  refine ⟨52 - n.log2, by omega, ?_, ?_⟩
  · calc 2 ^ 52 = 2 ^ n.log2 * 2 ^ (52 - n.log2) := by rw [← pow_add]; congr 1; omega
      _ ≤ n * 2 ^ (52 - n.log2) := Nat.mul_le_mul_right _ (Nat.log2_self_le hpos.ne')
  · calc (n + 1) * 2 ^ (52 - n.log2) ≤ 2 ^ (n.log2 + 1) * 2 ^ (52 - n.log2) :=
        Nat.mul_le_mul_right _ Nat.lt_log2_self
      _ = 2 ^ 53 := by rw [← pow_add]; congr 1; omega

/-- Natural numbers of at most 53 binary digits are represented. -/
theorem exists_value_eq_natCast (hn : n ≤ 2 ^ 53) : ∃ x : Binary64, x.value = n := by
  rcases Nat.eq_zero_or_pos n with rfl | hpos
  · exact ⟨zero false, by simp [value_zero]⟩
  rcases eq_or_lt_of_le hn with rfl | hlt
  · obtain ⟨x, -, -, hx, -⟩ := exists_ofGrid (e := 0) le_rfl (by decide) (by decide)
      (.inr (by decide))
    exact ⟨x, by rw [hx, zpow_zero, mul_one]⟩
  · obtain ⟨t, ht, hfull, hnext⟩ := exists_shift hpos hlt
    have hle : n * 2 ^ t ≤ 2 ^ 53 :=
      (Nat.mul_le_mul_right _ (Nat.le_succ n)).trans hnext
    obtain ⟨x, -, -, hx, -⟩ := exists_ofGrid (e := -t) hle (by omega) (by omega) (.inr hfull)
    refine ⟨x, ?_⟩
    rw [hx, zpow_neg, zpow_natCast]
    push_cast
    field_simp

/-- Between a natural number of at most 53 binary digits and the next one lies a number whose
distance from the next one is at most what the last digit of a full significand is worth. -/
theorem exists_value_lt_add_one (hn : n < 2 ^ 53) : ∃ x : Binary64,
    n ≤ x.value ∧ x.value < n + 1 ∧ (n + 1 - x.value) * 2 ^ 52 ≤ n + 1 := by
  rcases Nat.eq_zero_or_pos n with rfl | hpos
  · obtain ⟨x, -, -, hx, -⟩ := exists_ofGrid (s := 2 ^ 53 - 1) (e := -53) (by decide) (by decide)
      (by decide) (.inr (by decide))
    refine ⟨x, ?_, ?_, ?_⟩ <;> rw [hx] <;> norm_num
  · obtain ⟨t, ht, hfull, hnext⟩ := exists_shift hpos hn
    have hone : 1 ≤ 2 ^ t := Nat.one_le_two_pow
    have hfullBelow : 2 ^ 52 ≤ (n + 1) * 2 ^ t - 1 := by
      rw [Nat.add_one_mul]
      omega
    obtain ⟨x, -, -, hx, -⟩ := exists_ofGrid (e := -t) ((Nat.sub_le _ 1).trans hnext) (by omega)
      (by omega) (.inr hfullBelow)
    have hvalue : x.value = n + 1 - 1 / 2 ^ t := by
      have hle : 1 ≤ (n + 1) * 2 ^ t := hone.trans (Nat.le_mul_of_pos_left _ n.succ_pos)
      rw [hx, zpow_neg, zpow_natCast, Nat.cast_sub hle]
      push_cast
      field_simp
    have hgap : (1 / 2 ^ t : ℚ) ≤ 1 := by
      rw [div_le_one (by positivity)]
      exact_mod_cast hone
    have hgapPos : (0 : ℚ) < 1 / 2 ^ t := by positivity
    refine ⟨x, by linarith, by linarith, ?_⟩
    have hfullCast : (2 ^ 52 : ℚ) ≤ n * 2 ^ t := by exact_mod_cast hfull
    rw [hvalue, sub_sub_cancel, div_mul_eq_mul_div, one_mul, div_le_iff₀ (by positivity)]
    have : (0 : ℚ) < 2 ^ t := by positivity
    linarith

/-! ## Integer parts -/

/-- Rounding moves the integer part of a number below `2 ^ 53` by at most one, upward. -/
theorem IsNearest.floor_le_floor (h : x.IsNearest q) (hlow : n ≤ q) (hhigh : q < n + 1)
    (hn : n < 2 ^ 53) : ⌊x.value⌋ = n ∨ ⌊x.value⌋ = n + 1 := by
  obtain ⟨y, hy⟩ := exists_value_eq_natCast hn.le
  obtain ⟨z, hz⟩ := exists_value_eq_natCast (Nat.succ_le_of_lt hn)
  have hyx : (n : ℚ) ≤ x.value := hy ▸ h.le_value (hy ▸ hlow)
  have hxz : x.value ≤ n + 1 := by
    have hle := h.value_le (y := z) (by rw [hz]; push_cast; exact hhigh.le)
    rw [hz] at hle
    exact_mod_cast hle
  have hfloor : (n : ℤ) ≤ ⌊x.value⌋ := Int.le_floor.mpr (by exact_mod_cast hyx)
  have hceil : ⌊x.value⌋ ≤ n + 1 := by
    have hcast : (⌊x.value⌋ : ℚ) ≤ n + 1 := (Int.floor_le _).trans hxz
    exact_mod_cast hcast
  omega

/-- Rounding keeps an integer part below `2 ^ 53` unless the fraction comes too close to one. -/
theorem IsNearest.floor_eq (h : x.IsNearest q) (hlow : n ≤ q) (hn : n < 2 ^ 53)
    (hfar : (n + 1 : ℚ) < 2 ^ 53 * (n + 1 - q)) : ⌊x.value⌋ = n := by
  have hnonneg : (0 : ℚ) ≤ n := by positivity
  have hhigh : q < n + 1 := by linarith
  refine (h.floor_le_floor hlow hhigh hn).resolve_right fun hfloor => ?_
  have hx : (n + 1 : ℚ) ≤ x.value := by
    have hle := Int.floor_le x.value
    rw [hfloor] at hle
    exact_mod_cast hle
  obtain ⟨z, -, hz, hclose⟩ := exists_value_lt_add_one hn
  rcases le_total q z.value with hbelow | habove
  · linarith [h.value_le hbelow]
  · -- the number below would be nearer than the next integer
    have hnear := h.abs_sub_le z
    rw [abs_of_nonpos (by linarith), abs_of_nonneg (by linarith)] at hnear
    linarith

/-- From `2 ^ 53` on all numbers are even. -/
theorem exists_value_eq_two_mul (h : 2 ^ 53 ≤ x.value) : ∃ j : ℤ, x.value = j * 2 := by
  have hpower : (2 : ℚ) ^ (53 : ℤ) < 2 ^ (53 + x.exponent) :=
    (h.trans (le_abs_self _)).trans_lt x.abs_value_lt
  have hexponent : 1 ≤ x.exponent := by
    have hlt := (zpow_lt_zpow_iff_right₀ one_lt_two).mp hpower
    omega
  obtain ⟨j, hj, -⟩ := exists_value_eq hexponent
  exact ⟨j, by rw [hj, zpow_one]⟩

/-- Rounding keeps an integer part from `2 ^ 53` on exactly if that is a number itself. -/
theorem IsNearest.floor_eq_iff (h : x.IsNearest q) (hlow : n ≤ q) (hhigh : q < n + 1)
    (hn : 2 ^ 53 ≤ n) : ⌊x.value⌋ = n ↔ ∃ y : Binary64, y.value = n := by
  have hlarge : (2 ^ 53 : ℚ) ≤ n := by exact_mod_cast hn
  constructor
  · intro hfloor
    have hx : (n : ℚ) ≤ x.value := by
      have hle := Int.floor_le x.value
      rw [hfloor] at hle
      exact_mod_cast hle
    obtain ⟨j, hj⟩ := exists_value_eq_two_mul (hlarge.trans hx)
    refine ⟨x, ?_⟩
    have hint : ⌊x.value⌋ = j * 2 := by
      rw [hj]
      exact_mod_cast Int.floor_intCast (R := ℚ) (j * 2)
    rw [hj, ← Int.cast_natCast n, ← hfloor, hint]
    push_cast
    rfl
  · rintro ⟨y, hy⟩
    have hx : (n : ℚ) ≤ x.value := hy ▸ h.le_value (hy ▸ hlow)
    obtain ⟨i, hi⟩ := exists_value_eq_two_mul (x := y) (hy ▸ hlarge)
    obtain ⟨j, hj⟩ := exists_value_eq_two_mul (hlarge.trans hx)
    have hnear := h.abs_sub_le y
    rw [hy, abs_of_nonneg (by linarith : 0 ≤ q - n), abs_sub_comm] at hnear
    have hclose : x.value < n + 2 := by linarith [le_abs_self (x.value - q)]
    -- two even numbers less than two apart are equal
    have hsame : j = i := by
      rw [← hy, hi, hj] at hx hclose
      have hle : i * 2 ≤ j * 2 := by exact_mod_cast hx
      have hlt : j * 2 < i * 2 + 2 := by exact_mod_cast hclose
      omega
    rw [hj, hsame, ← hi, hy]
    exact Int.floor_natCast n

end Binary64

end TreeLowering.Number
