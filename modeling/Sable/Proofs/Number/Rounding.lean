import Mathlib.Algebra.Order.Field.Basic
import Mathlib.Algebra.Order.Field.Power
import Mathlib.Data.Nat.Log
import Mathlib.Tactic.FieldSimp
import Mathlib.Tactic.Linarith
import Mathlib.Tactic.NormNum
import Mathlib.Tactic.Positivity
import Mathlib.Tactic.Ring
import Sable.Number.Decimal

/-!
# Rounding is correct

The codes of the magnitudes are in the order of the magnitudes. So the nearest magnitude is found on
the grid of those that share an exponent, once the power of two below the number is known: what lies
on the finer grids below is further away.

## Main definitions

* `Binary64.magnitude`: the number that a code stands for.
* `Binary64.IsNearest`: a code whose magnitude is nearest to a number, the even one of two.

## Main statements

* `Binary64.magnitude_strictMono`: the order of the codes.
* `Binary64.isNearest_roundRatio`: quotients are rounded to the nearest.
* `Decimal.isNearest_toBinary64`: and so are decimals, however great or small.
-/
namespace Sable

namespace Binary64

/-- The magnitude of a code. Infinity counts as the power of two behind the finite magnitudes. -/
def magnitude (code : Nat) : ℚ := significand code * 2 ^ exponent code

/-- No code stands for a magnitude nearer to `v`, and if another one is as near, this one is
even. -/
structure IsNearest (v : ℚ) (code : Nat) : Prop where
  le_infinity : code ≤ infinityCode
  dist_le : ∀ c ≤ infinityCode, |v - magnitude code| ≤ |v - magnitude c|
  even_of_tie : ∀ c ≤ infinityCode, c ≠ code → |v - magnitude c| = |v - magnitude code| →
    code % 2 = 0

/-! ## The magnitudes in order -/

theorem binade_pos : 0 < binade := by decide

/-- The codes from `k * binade` on count up the grid of an exponent, and the next power of two
stands at the end of it. -/
theorem magnitude_add {k m : Nat} (hm : m ≤ 2 * binade) (hk : k = 0 ∨ binade ≤ m) :
    magnitude (k * binade + m) = m * 2 ^ (minExponent + k) := by
  have hbinade := binade_pos
  by_cases hsmall : m < binade
  · obtain rfl : k = 0 := hk.resolve_right (Nat.not_le_of_lt hsmall)
    simp [magnitude, significand, exponent, hsmall]
  · have hle := Nat.le_of_not_lt hsmall
    have hlarge : ¬k * binade + m < binade := by
      have := Nat.le_add_left m (k * binade)
      omega
    rw [magnitude, significand, exponent, if_neg hlarge, if_neg hlarge]
    rcases Nat.eq_or_lt_of_le hm with rfl | hlt
    · have hcode : k * binade + 2 * binade = (k + 2) * binade := (Nat.add_mul ..).symm
      have hexp : (((k + 2 : Nat) : Int) - 1 + minExponent) = minExponent + k + 1 := by
        push_cast
        ring
      rw [hcode, Nat.mul_mod_left, Nat.mul_div_cancel _ hbinade, hexp, zpow_add_one₀ (by norm_num)]
      push_cast
      ring
    · obtain ⟨r, rfl⟩ := Nat.exists_eq_add_of_le hle
      have hr : r < binade := by omega
      have hcode : k * binade + (binade + r) = r + (k + 1) * binade := by ring
      have hexp : (((k + 1 : Nat) : Int) - 1 + minExponent) = minExponent + k := by
        push_cast
        ring
      rw [hcode, Nat.add_mul_mod_self_right, Nat.mod_eq_of_lt hr, Nat.add_mul_div_right _ _ hbinade,
        Nat.div_eq_of_lt hr, Nat.zero_add, hexp]

/-- Each code counts on the grid of its exponent. -/
theorem exists_grid (code : Nat) : ∃ k m, code = k * binade + m ∧ m < 2 * binade ∧
    (k = 0 ∨ binade ≤ m) := by
  have hmod := Nat.mod_lt code binade_pos
  by_cases h : code < binade
  · exact ⟨0, code, by simp, by omega, .inl rfl⟩
  · obtain ⟨k, hk⟩ : ∃ k, code / binade = k + 1 :=
      Nat.exists_eq_succ_of_ne_zero (Nat.ne_of_gt (Nat.div_pos (Nat.le_of_not_lt h) binade_pos))
    refine ⟨k, binade + code % binade, ?_, by omega, .inr (Nat.le_add_right _ _)⟩
    have hdiv := Nat.div_add_mod code binade
    rw [hk, Nat.mul_add, Nat.mul_one, Nat.mul_comm] at hdiv
    omega

theorem magnitude_lt_succ (code : Nat) : magnitude code < magnitude (code + 1) := by
  obtain ⟨k, m, rfl, hm, hk⟩ := exists_grid code
  rw [Nat.add_assoc, magnitude_add (Nat.le_of_lt hm) hk,
    magnitude_add (show m + 1 ≤ 2 * binade from hm) (hk.imp_right Nat.le_succ_of_le)]
  push_cast
  have : (0 : ℚ) < 2 ^ (minExponent + k) := by positivity
  linarith

theorem magnitude_strictMono : StrictMono magnitude := strictMono_nat_of_lt_succ magnitude_lt_succ

theorem magnitude_nonneg (code : Nat) : 0 ≤ magnitude code := by
  unfold magnitude
  positivity

theorem magnitude_zero : magnitude 0 = 0 := by
  simp [magnitude, significand, binade_pos]

theorem magnitude_one : magnitude 1 = 2 ^ (-1074 : Int) := by
  have hgrid := magnitude_add (k := 0) (m := 1) (by decide) (.inl rfl)
  rw [Nat.zero_mul, Nat.zero_add] at hgrid
  rw [hgrid, Nat.cast_one, one_mul]
  rfl

theorem magnitude_infinity : magnitude infinityCode = 2 ^ (1024 : Int) := by
  have hgrid := magnitude_add (k := 2046) (m := binade) (by decide) (.inr (Nat.le_refl _))
  have hcode : infinityCode = 2046 * binade + binade := by decide
  rw [hcode, hgrid, show (binade : ℚ) = 2 ^ (52 : Int) by norm_num [binade],
    ← zpow_add₀ (by norm_num)]
  rfl

/-! ## The nearest integer -/

/-- `m` is an integer nearest to `x`, the even one of two. -/
structure IsNearestNat (x : ℚ) (m : Nat) : Prop where
  dist_le : |x - m| ≤ 1 / 2
  even_of_tie : |x - m| = 1 / 2 → m % 2 = 0

theorem isNearestNat_roundDiv (num : Nat) {den : Nat} (hden : 0 < den) :
    IsNearestNat (num / den) (roundDiv num den) := by
  have hpos : (0 : ℚ) < den := by exact_mod_cast hden
  have hmod := Nat.mod_lt num hden
  have hsplit : (num : ℚ) = den * (num / den : Nat) + (num % den : Nat) := by
    exact_mod_cast (Nat.div_add_mod num den).symm
  have hquotient : (num : ℚ) / den = (num / den : Nat) + (num % den : Nat) / den := by
    rw [hsplit]
    field_simp
  set q := num / den
  set r := num % den
  have hr : (0 : ℚ) ≤ r / den := by positivity
  unfold roundDiv
  dsimp only
  rw [hquotient]
  split
  · next hdown =>
    have hdist : |((q : ℚ) + r / den) - q| = r / den := by
      rw [add_sub_cancel_left, abs_of_nonneg hr]
    have htwice : 2 * (r : ℚ) ≤ den := by
      have : 2 * r ≤ den := by omega
      exact_mod_cast this
    refine ⟨by rw [hdist, div_le_iff₀ hpos]; linarith, fun htie => ?_⟩
    rw [hdist, div_eq_iff (ne_of_gt hpos)] at htie
    have hhalf : 2 * r = den := by
      have : 2 * (r : ℚ) = den := by linarith
      exact_mod_cast this
    omega
  · next hup =>
    have hle : (r : ℚ) / den ≤ 1 := by
      rw [div_le_one hpos]
      exact_mod_cast Nat.le_of_lt hmod
    have hdist : |((q : ℚ) + r / den) - (q + 1 : Nat)| = 1 - r / den := by
      push_cast
      rw [add_sub_add_left_eq_sub, abs_of_nonpos (by linarith)]
      ring
    have htwice : (den : ℚ) ≤ 2 * r := by
      have : den ≤ 2 * r := by omega
      exact_mod_cast this
    have hhalf : 1 / 2 ≤ (r : ℚ) / den := by
      rw [le_div_iff₀ hpos]
      linarith
    refine ⟨by rw [hdist]; linarith, fun htie => ?_⟩
    rw [hdist] at htie
    have heq : (r : ℚ) / den = 1 / 2 := by linarith
    rw [div_eq_iff (ne_of_gt hpos)] at heq
    have hhalf : 2 * r = den := by
      have : 2 * (r : ℚ) = den := by linarith
      exact_mod_cast this
    omega

namespace IsNearestNat

variable {x : ℚ} {m n : Nat}

theorem one_sub_le (hn : n ≠ m) : 1 - |x - m| ≤ |x - n| := by
  have hapart : (1 : ℚ) ≤ |(m : ℚ) - n| := by
    have hint : (1 : Int) ≤ |(m : Int) - n| := Int.one_le_abs (by omega)
    exact_mod_cast hint
  have htriangle := abs_sub_le (m : ℚ) x n
  rw [abs_sub_comm (m : ℚ) x] at htriangle
  linarith

theorem le (h : IsNearestNat x m) (n : Nat) : |x - m| ≤ |x - n| := by
  by_cases hn : n = m
  · rw [hn]
  · have := one_sub_le (x := x) hn
    have := h.dist_le
    linarith

theorem even (h : IsNearestNat x m) (hn : n ≠ m) (htie : |x - n| = |x - m|) : m % 2 = 0 := by
  have := one_sub_le (x := x) hn
  have := h.dist_le
  exact h.even_of_tie (by linarith)

end IsNearestNat

/-! ## Powers of two -/

theorem two_zpow_toNat (q : Int) : (2 : ℚ) ^ q.toNat / 2 ^ (-q).toNat = 2 ^ q := by
  rcases Int.le_total 0 q with h | h
  · obtain ⟨n, rfl⟩ := Int.eq_ofNat_of_zero_le h
    simp
  · obtain ⟨n, hn⟩ := Int.eq_ofNat_of_zero_le (Int.neg_nonneg_of_nonpos h)
    obtain rfl : q = -n := by omega
    simp

theorem floorLog2_spec {num den : Nat} (hnum : 0 < num) (hden : 0 < den) :
    (2 : ℚ) ^ floorLog2 num den ≤ num / den ∧ (num / den : ℚ) < 2 ^ (floorLog2 num den + 1) := by
  have hpos : (0 : ℚ) < den := by exact_mod_cast hden
  have hnum₁ : (2 : ℚ) ^ (num.log2 : Int) ≤ num := by
    exact_mod_cast Nat.log2_self_le (Nat.ne_of_gt hnum)
  have hnum₂ : (num : ℚ) < 2 ^ ((num.log2 : Int) + 1) := by
    exact_mod_cast Nat.lt_log2_self (n := num)
  have hden₁ : (2 : ℚ) ^ (den.log2 : Int) ≤ den := by
    exact_mod_cast Nat.log2_self_le (Nat.ne_of_gt hden)
  have hden₂ : (den : ℚ) < 2 ^ ((den.log2 : Int) + 1) := by
    exact_mod_cast Nat.lt_log2_self (n := den)
  unfold floorLog2
  generalize (num.log2 : Int) = a at *
  generalize (den.log2 : Int) = b at *
  have hbelow : (2 : ℚ) ^ (a - b - 1) ≤ num / den := by
    rw [le_div_iff₀ hpos]
    calc (2 : ℚ) ^ (a - b - 1) * den ≤ 2 ^ (a - b - 1) * 2 ^ (b + 1) := by gcongr
      _ = 2 ^ a := by rw [← zpow_add₀ (by norm_num)]; congr 1; ring
      _ ≤ num := hnum₁
  have habove : (num / den : ℚ) < 2 ^ (a - b + 1) := by
    rw [div_lt_iff₀ hpos]
    calc (num : ℚ) < 2 ^ (a + 1) := hnum₂
      _ = 2 ^ (a - b + 1) * 2 ^ b := by rw [← zpow_add₀ (by norm_num)]; congr 1; ring
      _ ≤ 2 ^ (a - b + 1) * den := by gcongr
  have hcompare : den * Nat.pow 2 (a - b).toNat ≤ num * Nat.pow 2 (-(a - b)).toNat ↔
      (2 : ℚ) ^ (a - b) ≤ num / den := by
    rw [← two_zpow_toNat, div_le_div_iff₀ (by positivity) hpos, mul_comm (2 ^ _ : ℚ)]
    exact_mod_cast Iff.rfl
  dsimp only
  split
  · next h => exact ⟨hcompare.1 h, habove⟩
  · next h =>
    rw [hcompare, not_le] at h
    exact ⟨hbelow, by rwa [Int.sub_add_cancel]⟩

/-! ## Quotients -/

/-- What is nearest on the grid of an exponent is nearest of all, unless the number lies below the
part of the grid that has codes. -/
theorem nearest_of_grid {v : ℚ} {k m : Nat} (hm : m ≤ 2 * binade) (hk : k = 0 ∨ binade ≤ m)
    (hgrid : k = 0 ∨ (binade : ℚ) ≤ v / 2 ^ (minExponent + k))
    (hnearest : IsNearestNat (v / 2 ^ (minExponent + k)) m) (c : Nat) :
    |v - magnitude (k * binade + m)| ≤ |v - magnitude c| ∧
      (c ≠ k * binade + m → |v - magnitude c| = |v - magnitude (k * binade + m)| →
        (k * binade + m) % 2 = 0) := by
  have hpos : (0 : ℚ) < 2 ^ (minExponent + k) := by positivity
  -- all distances are counted in steps of the grid
  have hscale : ∀ y : ℚ, |v - y * 2 ^ (minExponent + k)| =
      |v / 2 ^ (minExponent + k) - y| * 2 ^ (minExponent + k) := by
    intro y
    rw [← abs_of_pos hpos, ← abs_mul, abs_of_pos hpos, sub_mul, div_mul_cancel₀ _ (ne_of_gt hpos)]
  obtain ⟨k', m', rfl, hm', hk'⟩ := exists_grid c
  rw [magnitude_add hm hk, hscale]
  by_cases hle : k ≤ k'
  · obtain ⟨d, rfl⟩ := Nat.exists_eq_add_of_le hle
    have hcode : magnitude ((k + d) * binade + m') =
        (m' * 2 ^ d : Nat) * 2 ^ (minExponent + k) := by
      rw [magnitude_add (Nat.le_of_lt hm') hk', Nat.cast_add, ← add_assoc,
        zpow_add₀ (by norm_num), zpow_natCast]
      push_cast
      ring
    rw [hcode, hscale]
    refine ⟨mul_le_mul_of_nonneg_right (hnearest.le _) (le_of_lt hpos), fun hne htie => ?_⟩
    have hother : m' * 2 ^ d ≠ m := by
      rintro rfl
      rw [← magnitude_add hm hk] at hcode
      exact hne (magnitude_strictMono.injective hcode)
    have heven := hnearest.even hother (mul_right_cancel₀ (ne_of_gt hpos) htie)
    have hbinade : k * binade % 2 = 0 := by
      rw [Nat.mul_mod, show binade % 2 = 0 by decide, Nat.mul_zero, Nat.zero_mod]
    omega
  · have hlt := Nat.lt_of_not_le hle
    have hlow := hgrid.resolve_left (by omega)
    -- the codes of lesser exponents lie below the first one of this exponent
    have hbelow : magnitude (k' * binade + m') < binade * 2 ^ (minExponent + k) := by
      have hcode : k' * binade + m' < k * binade + binade := by
        have := Nat.mul_le_mul_right binade hlt
        rw [Nat.succ_mul] at this
        omega
      rw [← magnitude_add (by omega) (.inr (Nat.le_refl _))]
      exact magnitude_strictMono hcode
    have hfar : |v / 2 ^ (minExponent + k) - m| * 2 ^ (minExponent + k) <
        |v - magnitude (k' * binade + m')| := by
      have hbinade : (binade : ℚ) * 2 ^ (minExponent + k) ≤ v := by rwa [← le_div_iff₀ hpos]
      have hfirst := mul_le_mul_of_nonneg_right (hnearest.le binade) (le_of_lt hpos)
      rw [← hscale (binade : ℚ),
        abs_of_nonneg (show 0 ≤ v - binade * 2 ^ (minExponent + k) by linarith)] at hfirst
      rw [abs_of_nonneg (show 0 ≤ v - magnitude (k' * binade + m') by linarith)]
      linarith
    exact ⟨le_of_lt hfar, fun _ htie => absurd htie (ne_of_gt hfar)⟩

/-- What is rounded beyond infinity is infinite. -/
theorem isNearest_min {v : ℚ} {code : Nat} (hdist : ∀ c, |v - magnitude code| ≤ |v - magnitude c|)
    (heven : ∀ c, c ≠ code → |v - magnitude c| = |v - magnitude code| → code % 2 = 0) :
    IsNearest v (min infinityCode code) := by
  by_cases hle : code ≤ infinityCode
  · rw [Nat.min_eq_right hle]
    exact ⟨hle, fun c _ => hdist c, fun c _ => heven c⟩
  have hlt := magnitude_strictMono (Nat.lt_of_not_le hle)
  rw [Nat.min_eq_left (Nat.le_of_not_le hle)]
  have hbeyond : magnitude infinityCode ≤ v := by
    by_contra hbelow
    have := hdist infinityCode
    rw [abs_of_neg (by linarith), abs_of_neg (by linarith)] at this
    linarith
  refine ⟨Nat.le_refl _, fun c hc => ?_, fun _ _ _ _ => by decide⟩
  have := magnitude_strictMono.monotone hc
  rw [abs_of_nonneg (by linarith), abs_of_nonneg (by linarith)]
  linarith

theorem isNearest_zero {v : ℚ} (hv : 0 ≤ v) (h : v ≤ magnitude 1 / 2) : IsNearest v 0 := by
  have hone : ∀ c, c ≠ 0 → magnitude 1 ≤ magnitude c := fun c hc =>
    magnitude_strictMono.monotone (Nat.one_le_iff_ne_zero.2 hc)
  refine ⟨Nat.zero_le _, fun c _ => ?_, fun _ _ _ _ => rfl⟩
  rw [magnitude_zero, sub_zero, abs_of_nonneg hv]
  by_cases hc : c = 0
  · rw [hc, magnitude_zero, sub_zero, abs_of_nonneg hv]
  · have := hone c hc
    rw [abs_of_nonpos (by linarith)]
    linarith

theorem isNearest_infinity {v : ℚ} (h : magnitude infinityCode ≤ v) : IsNearest v infinityCode := by
  refine ⟨Nat.le_refl _, fun c hc => ?_, fun _ _ _ _ => by decide⟩
  have := magnitude_strictMono.monotone hc
  rw [abs_of_nonneg (by linarith), abs_of_nonneg (by linarith)]
  linarith

/-- Quotients are rounded to the nearest. -/
theorem isNearest_roundRatio (num : Nat) {den : Nat} (hden : 0 < den) :
    IsNearest (num / den) (roundRatio num den) := by
  by_cases hnum : num = 0
  · subst hnum
    have := magnitude_nonneg 1
    simpa [roundRatio] using isNearest_zero (le_refl 0) (by linarith)
  obtain ⟨hfloor, hceil⟩ := floorLog2_spec (Nat.pos_of_ne_zero hnum) hden
  rw [roundRatio, if_neg hnum]
  dsimp only
  obtain ⟨k, hk⟩ := Int.eq_ofNat_of_zero_le
    (show 0 ≤ max minExponent (floorLog2 num den - 52) - minExponent by omega)
  obtain ⟨hle, hcases⟩ : floorLog2 num den - 52 ≤ minExponent + k ∧
      (k = 0 ∨ minExponent + k = floorLog2 num den - 52) := by omega
  rw [show max minExponent (floorLog2 num den - 52) = minExponent + k by omega,
    add_sub_cancel_left, Int.toNat_natCast]
  generalize hq : minExponent + (k : Int) = q at *
  have hpos : (0 : ℚ) < 2 ^ q := by positivity
  have hquotient : ((num * Nat.pow 2 (-q).toNat : Nat) : ℚ) / (den * Nat.pow 2 q.toNat : Nat) =
      num / den / 2 ^ q := by
    have hdenq : (den : ℚ) ≠ 0 := by exact_mod_cast Nat.ne_of_gt hden
    rw [← two_zpow_toNat q]
    simp only [Nat.pow_eq]
    push_cast
    field_simp
  have hden' : 0 < den * Nat.pow 2 q.toNat := Nat.mul_pos hden (Nat.two_pow_pos _)
  have hnearest := isNearestNat_roundDiv (num * Nat.pow 2 (-q).toNat) hden'
  rw [hquotient] at hnearest
  generalize roundDiv (num * Nat.pow 2 (-q).toNat) (den * Nat.pow 2 q.toNat) = m at hnearest ⊢
  have hbelow : (num / den / 2 ^ q : ℚ) < 2 * binade := by
    rw [div_lt_iff₀ hpos]
    calc (num / den : ℚ) < 2 ^ (floorLog2 num den + 1) := hceil
      _ ≤ 2 ^ (53 + q) := zpow_le_zpow_right₀ (by norm_num) (by omega)
      _ = 2 * binade * 2 ^ q := by rw [zpow_add₀ (by norm_num)]; norm_num [binade]
  have habove : k = 0 ∨ (binade : ℚ) ≤ num / den / 2 ^ q := by
    refine hcases.imp_right fun heq => ?_
    rw [le_div_iff₀ hpos]
    calc (binade : ℚ) * 2 ^ q = 2 ^ (52 + q) := by rw [zpow_add₀ (by norm_num)]; norm_num [binade]
      _ = 2 ^ floorLog2 num den := by rw [heq]; congr 1; ring
      _ ≤ num / den := hfloor
  -- the nearest integer lies on the grid, or is its end
  have hdist := abs_le.1 hnearest.dist_le
  have hm : m ≤ 2 * binade := by
    have : (m : ℚ) < (2 * binade + 1 : Nat) := by push_cast; linarith
    exact Nat.lt_succ_iff.1 (by exact_mod_cast this)
  have hk' : k = 0 ∨ binade ≤ m := by
    refine habove.imp_right fun hlow => ?_
    have : (binade : ℚ) < (m + 1 : Nat) := by push_cast; linarith
    exact Nat.lt_succ_iff.1 (by exact_mod_cast this)
  subst hq
  have hall := nearest_of_grid hm hk' habove hnearest
  exact isNearest_min (fun c => (hall c).1) fun c => (hall c).2

end Binary64

/-! ## Decimals -/

namespace Decimal

open Binary64

/-- The magnitude of a decimal. -/
def magnitude (d : Decimal) : ℚ := d.digits * 10 ^ d.exponent

theorem magnitude_nonneg (d : Decimal) : 0 ≤ d.magnitude := by
  unfold magnitude
  positivity

theorem magnitude_eq_ratio (d : Decimal) : d.magnitude =
    (d.digits * Nat.pow 10 d.exponent.toNat : Nat) / (Nat.pow 10 (-d.exponent).toNat : Nat) := by
  rw [magnitude]
  simp only [Nat.pow_eq]
  push_cast
  rcases Int.le_total 0 d.exponent with h | h
  · obtain ⟨n, hn⟩ := Int.eq_ofNat_of_zero_le h
    simp [hn]
  · obtain ⟨n, hn⟩ := Int.eq_ofNat_of_zero_le (Int.neg_nonneg_of_nonpos h)
    obtain hn : d.exponent = -n := by omega
    simp [hn, div_eq_mul_inv]

theorem lt_pow_digitCount (n : Nat) : n < 10 ^ digitCount n :=
  (Nat.length_toDigits_le_iff (by decide) Nat.length_toDigits_pos).1 (Nat.le_refl _)

theorem pow_digitCount_le {n : Nat} (hn : 0 < n) : 10 ^ (digitCount n - 1) ≤ n := by
  by_contra hlt
  by_cases hone : digitCount n - 1 = 0
  · rw [hone, Nat.pow_zero] at hlt
    omega
  · have hle := (Nat.length_toDigits_le_iff (by decide) (Nat.pos_of_ne_zero hone)).2
      (Nat.lt_of_not_le hlt)
    have : digitCount n = (Nat.toDigits 10 n).length := rfl
    omega

/-- The number of digits and the exponent tell the power of ten next to a decimal. -/
theorem magnitude_bounds (d : Decimal) (hd : d.digits ≠ 0) :
    (10 : ℚ) ^ (digitCount d.digits + d.exponent - 1) ≤ d.magnitude ∧
      d.magnitude < 10 ^ (digitCount d.digits + d.exponent) := by
  have hcount : 0 < digitCount d.digits := Nat.length_toDigits_pos
  have hlow : (10 : ℚ) ^ ((digitCount d.digits : Int) - 1) ≤ d.digits := by
    have := pow_digitCount_le (Nat.pos_of_ne_zero hd)
    rw [show ((digitCount d.digits : Int) - 1) = (digitCount d.digits - 1 : Nat) by omega,
      zpow_natCast]
    exact_mod_cast this
  have hhigh : (d.digits : ℚ) < 10 ^ (digitCount d.digits : Int) := by
    rw [zpow_natCast]
    exact_mod_cast lt_pow_digitCount d.digits
  have hpos : (0 : ℚ) < 10 ^ d.exponent := by positivity
  rw [magnitude, add_sub_right_comm, zpow_add₀ (by norm_num), zpow_add₀ (by norm_num)]
  exact ⟨mul_le_mul_of_nonneg_right hlow (le_of_lt hpos), mul_lt_mul_of_pos_right hhigh hpos⟩

/-- Four hundred powers of ten are far beyond all powers of two that matter here. -/
theorem two_pow_le_ten_pow {n : Nat} (hn : n ≤ 3 * 400) : (2 : ℚ) ^ n ≤ 10 ^ 400 := by
  calc (2 : ℚ) ^ n ≤ 2 ^ (3 * 400) := pow_le_pow_right₀ (by norm_num) hn
    _ = (2 ^ 3) ^ 400 := pow_mul ..
    _ ≤ 10 ^ 400 := pow_le_pow_left₀ (by norm_num) (by norm_num) _

/-- Decimals are rounded to the nearest. -/
theorem isNearest_toBinary64 (d : Decimal) :
    d.toBinary64.negative = d.negative ∧ IsNearest d.magnitude d.toBinary64.code := by
  have hnonneg := d.magnitude_nonneg
  unfold toBinary64
  dsimp only
  split
  · next hsmall =>
    refine ⟨rfl, isNearest_zero hnonneg ?_⟩
    rw [Binary64.magnitude_one]
    by_cases hd : d.digits = 0
    · rw [magnitude, hd, Nat.cast_zero, zero_mul]
      positivity
    · have hexp := hsmall.resolve_left hd
      calc d.magnitude ≤ 10 ^ (digitCount d.digits + d.exponent) := le_of_lt (d.magnitude_bounds hd).2
        _ ≤ 10 ^ (-400 : Int) := zpow_le_zpow_right₀ (by norm_num) (by omega)
        _ ≤ 2 ^ (-1075 : Int) := inv_anti₀ (by positivity) (two_pow_le_ten_pow (by decide))
        _ = 2 ^ (-1074 : Int) / 2 := by
          rw [div_eq_mul_inv, ← zpow_sub_one₀ (by norm_num)]
          rfl
  next hnormal =>
  rw [not_or] at hnormal
  split
  · next hlarge =>
    refine ⟨rfl, isNearest_infinity ?_⟩
    rw [magnitude_infinity]
    calc (2 : ℚ) ^ (1024 : Int) ≤ 10 ^ (400 : Int) := by
          rw [zpow_ofNat, zpow_ofNat]
          exact two_pow_le_ten_pow (by decide)
      _ ≤ 10 ^ (digitCount d.digits + d.exponent - 1) :=
        zpow_le_zpow_right₀ (by norm_num) (by omega)
      _ ≤ d.magnitude := (d.magnitude_bounds hnormal.1).1
  · refine ⟨rfl, ?_⟩
    rw [magnitude_eq_ratio]
    exact isNearest_roundRatio _ (Nat.pow_pos (by decide))

end Decimal

end Sable
