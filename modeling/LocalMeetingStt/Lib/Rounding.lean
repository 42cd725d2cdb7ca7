import Mathlib.Data.Int.Log
import Mathlib.Data.Rat.Floor
import Mathlib.Tactic.Linarith
import Mathlib.Tactic.Positivity

/-!
# Rounding to a number of binary digits

What a product of two floating-point numbers is: the exact one, rounded to the nearest that
has the digits, the even one of two. Signs, subnormals and overflow are left out: the
numbers are positive and far from both ends.

All that is needed of it is how far off it can be, which is one part in `2 ^ bits`
(`abs_round_sub_le`), and that this adds up to little over a few operations.
-/

namespace Rounding

/-- The nearest integer, and the even one half-way between two. -/
def roundEven (x : ℚ) : ℤ :=
  let below := ⌊x⌋
  let rest := x - below
  if rest < 1 / 2 then below
  else if 1 / 2 < rest then below + 1
  else if below % 2 = 0 then below
  else below + 1

theorem abs_roundEven_sub_le (x : ℚ) : |(roundEven x : ℚ) - x| ≤ 1 / 2 := by
  have hbelow : 0 ≤ x - ⌊x⌋ := sub_nonneg.mpr (Int.floor_le x)
  have habove : x - ⌊x⌋ < 1 := sub_lt_iff_lt_add'.mpr (Int.lt_floor_add_one x)
  rw [abs_le, roundEven]
  split_ifs with hdown hup heven
  all_goals constructor <;> push_cast <;> linarith

/-- The distance of the numbers with so many digits, around one. -/
def unit (bits : ℕ) (x : ℚ) : ℚ := 2 ^ (Int.log 2 x + 1 - bits)

def round (bits : ℕ) (x : ℚ) : ℚ := roundEven (x / unit bits x) * unit bits x

theorem unit_pos (bits : ℕ) (x : ℚ) : 0 < unit bits x := zpow_pos two_pos _

theorem unit_le (bits : ℕ) {x : ℚ} (hx : 0 < x) : unit bits x ≤ 2 * x / 2 ^ bits := by
  have hlog : (2 : ℚ) ^ Int.log 2 x ≤ x := by
    simpa using Int.zpow_log_le_self (R := ℚ) (b := 2) (by decide) hx
  have hpow : (0 : ℚ) < 2 ^ bits := by positivity
  have hsplit : unit bits x = 2 ^ Int.log 2 x * 2 / 2 ^ bits := by
    unfold unit
    rw [zpow_sub₀ two_ne_zero, zpow_add₀ two_ne_zero, zpow_one, zpow_natCast]
  rw [hsplit, mul_comm 2 x]
  gcongr

/-- **How far off a rounded number is**, in parts of it. -/
theorem abs_round_sub_le (bits : ℕ) {x : ℚ} (hx : 0 < x) :
    |round bits x - x| ≤ x / 2 ^ bits := by
  have hunit := unit_pos bits x
  have hdiff : round bits x - x =
      ((roundEven (x / unit bits x) : ℚ) - x / unit bits x) * unit bits x := by
    unfold round
    rw [sub_mul, div_mul_cancel₀ x hunit.ne']
  have hhalf : |(roundEven (x / unit bits x) : ℚ) - x / unit bits x| ≤ 1 / 2 :=
    abs_roundEven_sub_le _
  calc |round bits x - x|
      = |(roundEven (x / unit bits x) : ℚ) - x / unit bits x| * unit bits x := by
        rw [hdiff, abs_mul, abs_of_pos hunit]
    _ ≤ 1 / 2 * (2 * x / 2 ^ bits) :=
        mul_le_mul hhalf (unit_le bits hx) hunit.le (by norm_num)
    _ = x / 2 ^ bits := by ring

/-- A `double`. -/
def double (x : ℚ) : ℚ := round 53 x

/-- A number made an integer by leaving out its fraction. -/
def truncate (x : ℚ) : ℤ := x.num.tdiv x.den

theorem truncate_eq_floor {x : ℚ} (hx : 0 ≤ x) : truncate x = ⌊x⌋ := by
  rw [truncate, Int.tdiv_eq_ediv_of_nonneg (Rat.num_nonneg.mpr hx), Rat.floor_def']

/-! ## Rounding down in parts -/

theorem sum_eq_mul_add (d : ℕ) (parts : List ℕ) :
    parts.sum = d * (parts.map (· / d)).sum + (parts.map (· % d)).sum := by
  induction parts with
  | nil => simp
  | cons part parts ih =>
    have hpart := Nat.div_add_mod part d
    simp only [List.sum_cons, List.map_cons, Nat.mul_add]
    omega

/-- **What is lost by rounding each part down** is the whole of what remains of them. -/
theorem sum_div_eq {d : ℕ} (hd : 0 < d) (parts : List ℕ) :
    parts.sum / d = (parts.map (· / d)).sum + (parts.map (· % d)).sum / d := by
  conv_lhs => rw [sum_eq_mul_add d parts]
  exact Nat.mul_add_div hd _ _

end Rounding
