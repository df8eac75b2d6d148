import Mathlib.Algebra.Order.Round
import Mathlib.Data.Int.Log
import Mathlib.Data.Rat.Floor
import Mathlib.Tactic.FieldSimp
import Mathlib.Tactic.Linarith
import Mathlib.Tactic.NormNum
import Mathlib.Tactic.Ring

/-! Rounding of rationals to binary floating point with `p` significant bits, to the nearest value
and to the even one halfway. Exponents are unbounded, so this is a machine format on the range in
which it neither overflows nor loses bits near zero. -/
namespace TickToTrade.Rounding

/-- The nearest integer; halfway between two it is the even one. -/
def nearestEven (x : ℚ) : ℤ :=
  if Int.fract x < 1 / 2 then ⌊x⌋
  else if 1 / 2 < Int.fract x then ⌊x⌋ + 1
  else if Even ⌊x⌋ then ⌊x⌋ else ⌊x⌋ + 1

lemma nearestEven_intCast (n : ℤ) : nearestEven n = n := by
  simp [nearestEven]

lemma floor_le_nearestEven (x : ℚ) : ⌊x⌋ ≤ nearestEven x := by
  unfold nearestEven
  split_ifs <;> omega

lemma nearestEven_le_floor_add_one (x : ℚ) : nearestEven x ≤ ⌊x⌋ + 1 := by
  unfold nearestEven
  split_ifs <;> omega

lemma nearestEven_mono {x y : ℚ} (h : x ≤ y) : nearestEven x ≤ nearestEven y := by
  rcases (Int.floor_mono h).lt_or_eq with hlt | heq
  · calc nearestEven x ≤ ⌊x⌋ + 1 := nearestEven_le_floor_add_one x
      _ ≤ ⌊y⌋ := hlt
      _ ≤ nearestEven y := floor_le_nearestEven y
  · -- with one floor the fractions are ordered as the numbers are
    have hfract : Int.fract x ≤ Int.fract y := by
      rw [Int.fract,Int.fract,heq]
      linarith
    unfold nearestEven
    rw [heq]
    split_ifs <;> first | omega | (exfalso; linarith)

/-- The error is at most one half. -/
lemma abs_nearestEven_sub_le (x : ℚ) : |(nearestEven x : ℚ) - x| ≤ 1 / 2 := by
  have hsplit := Int.floor_add_fract x
  have hnonneg := Int.fract_nonneg x
  have hlt := Int.fract_lt_one x
  rw [abs_le]
  unfold nearestEven
  split_ifs <;> push_cast <;> constructor <;> linarith

/-- The distance between neighbours of `x` in the format. -/
def spacing (p : ℕ) (x : ℚ) : ℚ := 2 ^ (Int.log 2 |x| + 1 - p)

/-- Rounding to `p` significant bits. -/
def roundTo (p : ℕ) (x : ℚ) : ℚ := nearestEven (x / spacing p x) * spacing p x

lemma spacing_pos (p : ℕ) (x : ℚ) : 0 < spacing p x := zpow_pos (by norm_num) _

@[simp] lemma roundTo_zero (p : ℕ) : roundTo p 0 = 0 := by
  have hzero : nearestEven 0 = 0 := by simpa using nearestEven_intCast 0
  simp [roundTo,hzero]

/-- The relative error is at most half a unit in the last place. -/
theorem abs_roundTo_sub_le (p : ℕ) (x : ℚ) : |roundTo p x - x| ≤ |x| / 2 ^ p := by
  rcases eq_or_ne x 0 with rfl | hx
  · simp
  have hpos := spacing_pos p x
  have hlow : (2 : ℚ) ^ Int.log 2 |x| ≤ |x| := by
    simpa using Int.zpow_log_le_self (b := 2) (by norm_num) (abs_pos.mpr hx)
  have hspacing : spacing p x / 2 = 2 ^ Int.log 2 |x| / 2 ^ p := by
    rw [spacing,zpow_sub₀ (by norm_num),zpow_add₀ (by norm_num),zpow_one,zpow_natCast]
    ring
  calc |roundTo p x - x|
      = |(nearestEven (x / spacing p x) : ℚ) - x / spacing p x| * spacing p x := by
        rw [← abs_of_pos hpos,← abs_mul,abs_of_pos hpos,sub_mul,div_mul_cancel₀ x hpos.ne']
        rfl
    _ ≤ 1 / 2 * spacing p x := by
        gcongr
        exact abs_nearestEven_sub_le _
    _ = 2 ^ Int.log 2 |x| / 2 ^ p := by rw [← hspacing]; ring
    _ ≤ |x| / 2 ^ p := by gcongr

/-- Two numbers further apart than their errors stay apart. -/
theorem roundTo_lt_roundTo {p : ℕ} {x y : ℚ} (hx : 0 ≤ x) (hy : 0 ≤ y)
    (h : x * (1 + 1 / 2 ^ p) < y * (1 - 1 / 2 ^ p)) : roundTo p x < roundTo p y := by
  have hxerr := (abs_le.mp (abs_roundTo_sub_le p x)).2
  have hyerr := (abs_le.mp (abs_roundTo_sub_le p y)).1
  rw [abs_of_nonneg hx] at hxerr
  rw [abs_of_nonneg hy] at hyerr
  have hxsplit : x * (1 + 1 / 2 ^ p) = x + x / 2 ^ p := by ring
  have hysplit : y * (1 - 1 / 2 ^ p) = y - y / 2 ^ p := by ring
  linarith

theorem roundTo_intCast {p : ℕ} {n : ℤ} (h : |n| < 2 ^ p) : roundTo p n = n := by
  rcases eq_or_ne n 0 with rfl | hn
  · simp
  have hlog : Int.log 2 |(n : ℚ)| < p := by
    apply (Int.lt_zpow_iff_log_lt (by norm_num) (abs_pos.mpr (by exact_mod_cast hn))).mp
    rw [zpow_natCast]
    exact_mod_cast h
  -- the spacing divides one, so the quotient is an integer
  obtain ⟨k,hk⟩ := Int.le.dest (show Int.log 2 |(n : ℚ)| + 1 - p ≤ 0 by omega)
  have hspacing : spacing p n = 1 / 2 ^ k := by
    rw [spacing,show Int.log 2 |(n : ℚ)| + 1 - p = -(k : ℤ) by omega,zpow_neg,zpow_natCast,one_div]
  have hquotient : (n : ℚ) / spacing p n = ((n * 2 ^ k : ℤ) : ℚ) := by
    rw [hspacing]
    push_cast
    field_simp
  rw [roundTo,hquotient,nearestEven_intCast,← hquotient,div_mul_cancel₀ _ (spacing_pos p n).ne']

/-- A positive number lies between two powers of two, and so does its rounding. -/
lemma roundTo_mem_binade {p : ℕ} (hp : 0 < p) {x : ℚ} (hx : 0 < x) :
    (2 : ℚ) ^ Int.log 2 x ≤ roundTo p x ∧ roundTo p x ≤ 2 ^ (Int.log 2 x + 1) := by
  have hpos := spacing_pos p x
  have habs := abs_of_pos hx
  have hlow : (2 : ℚ) ^ Int.log 2 x ≤ x := by
    simpa using Int.zpow_log_le_self (b := 2) (by norm_num) hx
  have hhigh : x < (2 : ℚ) ^ (Int.log 2 x + 1) := by
    simpa using Int.lt_zpow_succ_log_self (b := 2) (by norm_num) x
  have hbottom : (2 : ℚ) ^ Int.log 2 x = ((2 ^ (p - 1) : ℤ) : ℚ) * spacing p x := by
    rw [spacing,habs]
    push_cast
    rw [← zpow_natCast,← zpow_add₀ (by norm_num)]
    congr 1
    omega
  have htop : (2 : ℚ) ^ (Int.log 2 x + 1) = ((2 ^ p : ℤ) : ℚ) * spacing p x := by
    rw [spacing,habs]
    push_cast
    rw [← zpow_natCast,← zpow_add₀ (by norm_num)]
    congr 1
    omega
  rw [hbottom,htop,roundTo]
  constructor
  · have hle : ((2 ^ (p - 1) : ℤ) : ℚ) ≤ x / spacing p x := by
      rwa [le_div_iff₀ hpos,← hbottom]
    have hmono := nearestEven_mono hle
    rw [nearestEven_intCast] at hmono
    gcongr
  · have hle : x / spacing p x ≤ ((2 ^ p : ℤ) : ℚ) := by
      rw [div_le_iff₀ hpos,← htop]
      exact hhigh.le
    have hmono := nearestEven_mono hle
    rw [nearestEven_intCast] at hmono
    gcongr

theorem roundTo_mono {p : ℕ} (hp : 0 < p) {x y : ℚ} (hx : 0 ≤ x) (h : x ≤ y) : roundTo p x ≤ roundTo p y := by
  rcases hx.eq_or_lt with rfl | hx
  · rcases h.eq_or_lt with rfl | hy
    · exact le_refl _
    · rw [roundTo_zero]
      exact (zpow_pos (by norm_num) _).le.trans (roundTo_mem_binade hp hy).1
  have hy : 0 < y := hx.trans_le h
  rcases (Int.log_mono_right (b := 2) hx h).lt_or_eq with hlt | heq
  · calc roundTo p x ≤ 2 ^ (Int.log 2 x + 1) := (roundTo_mem_binade hp hx).2
      _ ≤ 2 ^ Int.log 2 y := zpow_le_zpow_right₀ (by norm_num) hlt
      _ ≤ roundTo p y := (roundTo_mem_binade hp hy).1
  · have hspacing : spacing p x = spacing p y := by
      rw [spacing,spacing,abs_of_pos hx,abs_of_pos hy,heq]
    have hpos := spacing_pos p y
    rw [roundTo,roundTo,hspacing]
    gcongr
    apply nearestEven_mono
    gcongr

end TickToTrade.Rounding
