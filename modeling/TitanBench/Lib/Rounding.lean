import Mathlib.Algebra.Order.Round
import Mathlib.Data.Int.Log
import Mathlib.Data.Rat.Floor
import Mathlib.Tactic.Linarith

/-!
# Rounding to binary floating point

The numbers of a binary format are the multiples of `2 ^ e` with at most `p + 1` binary digits,
where `e` is not below some `eMin`. A nonnegative number is rounded to the nearest of them, to the
even multiple from halfway. There is no largest number here, so nothing overflows.

* `roundHalfEven` — to the nearest integer; monotone, and at most one half away.
* `roundTo` — to the format; `unit` is the distance of its numbers around a number.
* `roundTo_mono` — rounding keeps the order, also across a power of two.
* `roundTo_eq_self` — the numbers of the format are not changed.
* `roundTo_le_mul` — in the normal range the result is larger by a factor `1 + 2 ^ -(p + 1)` at
  most.
* `natFloor_roundTo` — below a number of the format, rounding leaves the integral part or raises it
  to the next integer.
-/

namespace Rounding

variable {K : Type*} [Field K] [LinearOrder K] [IsStrictOrderedRing K] [FloorRing K]

/-! ## To an integer -/

/-- The nearest integer, the even one from halfway. -/
def roundHalfEven (x : K) : ℤ :=
  if 2 * Int.fract x = 1 ∧ Even ⌊x⌋ then ⌊x⌋ else round x

@[simp] theorem roundHalfEven_intCast (n : ℤ) : roundHalfEven (n : K) = n := by
  unfold roundHalfEven
  rw [if_neg (by simp), round_intCast]

theorem abs_sub_roundHalfEven (x : K) : |x - roundHalfEven x| ≤ 1 / 2 := by
  unfold roundHalfEven
  split_ifs with h
  · rw [Int.self_sub_floor, abs_of_nonneg (Int.fract_nonneg x)]
    linarith [h.1]
  · exact abs_sub_round x

theorem floor_le_round (x : K) : ⌊x⌋ ≤ round x := by
  rw [round_eq]
  exact Int.floor_le_floor (by linarith)

theorem roundHalfEven_mono {x y : K} (h : x ≤ y) : roundHalfEven x ≤ roundHalfEven y := by
  have hfloor := Int.floor_le_floor h
  unfold roundHalfEven
  split_ifs with hx hy hy
  · exact hfloor
  · exact hfloor.trans (floor_le_round y)
  · -- `y` goes down to its integral part, and `x` is strictly below the halfway point `y`
    have hne : x ≠ y := fun heq => hx (heq ▸ hy)
    have hlt : x < y := lt_of_le_of_ne h hne
    have hhalf := Int.self_sub_floor y
    rw [round_eq, ← Int.lt_add_one_iff, Int.floor_lt]
    push_cast
    linarith [hy.1]
  · rw [round_eq, round_eq]
    exact Int.floor_le_floor (by linarith)

/-! ## To a number of the format -/

section Format

variable (p : ℕ) (eMin : ℤ)

/-- The exponent of the last digit kept of a number. -/
def unitExp (x : K) : ℤ := max (Int.log 2 x - p) eMin

/-- The distance of the numbers of the format around a number. -/
def unit (x : K) : K := 2 ^ unitExp p eMin x

/-- The nearest number of the format, with the even last digit from halfway. -/
def roundTo (x : K) : K := roundHalfEven (x / unit p eMin x) * unit p eMin x

variable {p eMin} {x y : K}

theorem unit_pos : 0 < unit p eMin x := zpow_pos two_pos _

@[simp] theorem roundTo_zero : roundTo p eMin (0 : K) = 0 := by
  have hzero : roundHalfEven (0 : K) = 0 := by simpa using roundHalfEven_intCast (K := K) 0
  rw [roundTo, zero_div, hzero, Int.cast_zero, zero_mul]

theorem two_zpow_log_le (h : 0 < x) : (2 : K) ^ Int.log 2 x ≤ x := by
  simpa using Int.zpow_log_le_self (b := 2) one_lt_two h

theorem lt_two_zpow_log (x : K) : x < (2 : K) ^ (Int.log 2 x + 1) := by
  simpa using Int.lt_zpow_succ_log_self (b := 2) one_lt_two x

/-- A multiple of the distance stays a bound. -/
theorem roundTo_le {n : ℤ} (h : x ≤ n * unit p eMin x) : roundTo p eMin x ≤ n * unit p eMin x := by
  have hdiv : x / unit p eMin x ≤ n := (div_le_iff₀ unit_pos).mpr h
  have hround := roundHalfEven_mono hdiv
  rw [roundHalfEven_intCast] at hround
  exact mul_le_mul_of_nonneg_right (Int.cast_le.mpr hround) unit_pos.le

theorem le_roundTo {n : ℤ} (h : n * unit p eMin x ≤ x) : n * unit p eMin x ≤ roundTo p eMin x := by
  have hdiv : (n : K) ≤ x / unit p eMin x := (le_div_iff₀ unit_pos).mpr h
  have hround := roundHalfEven_mono hdiv
  rw [roundHalfEven_intCast] at hround
  exact mul_le_mul_of_nonneg_right (Int.cast_le.mpr hround) unit_pos.le

theorem roundTo_nonneg (h : 0 ≤ x) : 0 ≤ roundTo p eMin x := by
  have hzero : ((0 : ℤ) : K) * unit p eMin x ≤ x := by simpa using h
  simpa using le_roundTo hzero

/-- A power of two that the distance divides is a multiple of it. -/
theorem zpow_eq_mul_unit {e : ℤ} (h : unitExp p eMin x ≤ e) :
    (2 : K) ^ e = ((2 ^ (e - unitExp p eMin x).toNat : ℤ) : K) * unit p eMin x := by
  have hnat : (((e - unitExp p eMin x).toNat : ℕ) : ℤ) = e - unitExp p eMin x :=
    Int.toNat_of_nonneg (by omega)
  rw [unit, Int.cast_pow, Int.cast_ofNat, ← zpow_natCast, hnat, ← zpow_add₀ two_pos.ne']
  congr 1
  omega

/-- The numbers of the format are not changed. -/
theorem roundTo_eq_self {m : ℕ} {e : ℤ} (hm : m < 2 ^ (p + 1)) (he : eMin ≤ e) :
    roundTo p eMin (m * 2 ^ e : K) = m * 2 ^ e := by
  rcases Nat.eq_zero_or_pos m with rfl | hpos
  · simp
  have hx : (0 : K) < m * 2 ^ e := mul_pos (Nat.cast_pos.mpr hpos) (zpow_pos two_pos _)
  have hlog : Int.log 2 (m * 2 ^ e : K) - p ≤ e := by
    have hlow := two_zpow_log_le hx
    have hm' : (m : K) < 2 ^ ((p + 1 : ℕ) : ℤ) := by
      rw [zpow_natCast]
      exact_mod_cast hm
    have hhigh : (m * 2 ^ e : K) < 2 ^ (((p + 1 : ℕ) : ℤ) + e) := by
      rw [zpow_add₀ two_ne_zero]
      exact mul_lt_mul_of_pos_right hm' (zpow_pos two_pos _)
    have hlt := (zpow_lt_zpow_iff_right₀ one_lt_two).mp (hlow.trans_lt hhigh)
    push_cast at hlt
    omega
  have hmul := zpow_eq_mul_unit (K := K) (max_le hlog he)
  -- `m * 2 ^ e` is an integral multiple of the distance
  obtain ⟨n, hn⟩ : ∃ n : ℤ, (m * 2 ^ e : K) = n * unit p eMin (m * 2 ^ e : K) := by
    refine ⟨m * 2 ^ (e - unitExp p eMin (m * 2 ^ e : K)).toNat, ?_⟩
    rw [Int.cast_mul, Int.cast_natCast, mul_assoc, ← hmul]
  refine le_antisymm ?_ ?_
  · exact (roundTo_le hn.le).trans hn.ge
  · exact hn.le.trans (le_roundTo hn.ge)

/-- Small integers are numbers of the format. -/
theorem roundTo_natCast (he : eMin ≤ 0) {n : ℕ} (h : n < 2 ^ (p + 1)) :
    roundTo p eMin (n : K) = n := by
  simpa using roundTo_eq_self (K := K) h he

theorem unitExp_mono (hx : 0 < x) (h : x ≤ y) : unitExp p eMin x ≤ unitExp p eMin y := by
  have hlog := Int.log_mono_right (b := 2) hx h
  unfold unitExp
  omega

/-- Rounding keeps the order. -/
theorem roundTo_mono (hx : 0 ≤ x) (h : x ≤ y) : roundTo p eMin x ≤ roundTo p eMin y := by
  rcases hx.eq_or_lt with rfl | hpos
  · rw [roundTo_zero]
    exact roundTo_nonneg h
  have hexp : unitExp p eMin x ≤ unitExp p eMin y := unitExp_mono hpos h
  rcases hexp.eq_or_lt with heq | hlt
  · have hunit : unit p eMin x = unit p eMin y := by rw [unit, unit, heq]
    rw [roundTo, roundTo, hunit]
    refine mul_le_mul_of_nonneg_right (Int.cast_le.mpr (roundHalfEven_mono ?_)) unit_pos.le
    exact div_le_div_of_nonneg_right h unit_pos.le
  · -- a power of two lies between them, and both distances divide it
    have hy : unitExp p eMin y = Int.log 2 y - p := by
      unfold unitExp at hlt ⊢
      omega
    have hlog : Int.log 2 x < Int.log 2 y := by
      unfold unitExp at hlt
      omega
    have hxle : unitExp p eMin x ≤ Int.log 2 y := by omega
    have hyle : unitExp p eMin y ≤ Int.log 2 y := by omega
    have hxpow : x ≤ (2 : K) ^ Int.log 2 y :=
      (lt_two_zpow_log x).le.trans (zpow_le_zpow_right₀ one_le_two (by omega))
    have hypow : (2 : K) ^ Int.log 2 y ≤ y := two_zpow_log_le (hpos.trans_le h)
    calc roundTo p eMin x ≤ 2 ^ Int.log 2 y := by
          rw [zpow_eq_mul_unit hxle] at hxpow ⊢
          exact roundTo_le hxpow
      _ ≤ roundTo p eMin y := by
          rw [zpow_eq_mul_unit hyle] at hypow ⊢
          exact le_roundTo hypow

/-- Half a distance is the largest error. -/
theorem roundTo_le_add (x : K) : roundTo p eMin x ≤ x + unit p eMin x / 2 := by
  have herr := (abs_le.mp (abs_sub_roundHalfEven (x / unit p eMin x))).1
  have hle : (roundHalfEven (x / unit p eMin x) : K) ≤ x / unit p eMin x + 1 / 2 := by linarith
  calc roundTo p eMin x ≤ (x / unit p eMin x + 1 / 2) * unit p eMin x :=
        mul_le_mul_of_nonneg_right hle unit_pos.le
    _ = x + unit p eMin x / 2 := by
        rw [add_mul, div_mul_cancel₀ x unit_pos.ne']
        ring

/-- In the normal range the relative error is half a unit in the last place. -/
theorem roundTo_le_mul (h : 2 ^ (eMin + p) ≤ x) :
    roundTo p eMin x ≤ x * (1 + 1 / 2 ^ (p + 1)) := by
  have hpos : 0 < x := (zpow_pos two_pos _).trans_le h
  have hlog : eMin ≤ Int.log 2 x - p := by
    have hlt := (zpow_lt_zpow_iff_right₀ one_lt_two).mp (h.trans_lt (lt_two_zpow_log x))
    omega
  have hunit : unit p eMin x * 2 ^ p ≤ x := by
    rw [unit, unitExp, max_eq_left hlog, ← zpow_natCast, ← zpow_add₀ two_ne_zero, sub_add_cancel]
    exact two_zpow_log_le hpos
  have hle : unit p eMin x / 2 ≤ x * (1 / 2 ^ (p + 1)) := by
    rw [mul_one_div, pow_succ, ← div_div]
    exact div_le_div_of_nonneg_right ((le_div_iff₀ (pow_pos two_pos _)).mpr hunit) two_pos.le
  calc roundTo p eMin x ≤ x + unit p eMin x / 2 := roundTo_le_add x
    _ ≤ x + x * (1 / 2 ^ (p + 1)) := by linarith
    _ = x * (1 + 1 / 2 ^ (p + 1)) := by ring

/-- Below a number of the format, rounding raises the integral part to the next integer at most. -/
theorem natFloor_roundTo (he : eMin ≤ 0) {n : ℕ} (hn : n < 2 ^ (p + 1)) (hx : 0 ≤ x)
    (h : x ≤ n) : ⌊x⌋₊ ≤ ⌊roundTo p eMin x⌋₊ ∧ ⌊roundTo p eMin x⌋₊ ≤ min n (⌊x⌋₊ + 1) := by
  have hfloor : ⌊x⌋₊ ≤ n := Nat.floor_le_of_le h
  have hmin : x ≤ (min n (⌊x⌋₊ + 1) : ℕ) := by
    rw [Nat.cast_min]
    refine le_min h ?_
    push_cast
    exact (Nat.lt_floor_add_one x).le
  constructor
  · refine Nat.le_floor ?_
    rw [← roundTo_natCast (K := K) he (hfloor.trans_lt hn)]
    exact roundTo_mono (Nat.cast_nonneg _) (Nat.floor_le hx)
  · refine Nat.floor_le_of_le ?_
    rw [← roundTo_natCast (K := K) he ((min_le_left n (⌊x⌋₊ + 1)).trans_lt hn)]
    exact roundTo_mono hx hmin

end Format

end Rounding
