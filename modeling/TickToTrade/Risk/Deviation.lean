import TickToTrade.Library.Rounding
import TickToTrade.Risk.Model

/-! The price-deviation test of the risk check in double precision. Prices are 32-bit integers, so
conversion and subtraction are exact and only the division rounds; a limit written as a decimal is
itself the double nearest to it. The quotients of 32-bit prices lie so far apart that these two
roundings never change the decision. -/
namespace TickToTrade.PreTradeRiskEngine
open Rounding

/-- The double nearest to a rational. The exponent is not bounded: for a value outside the range of
the normal doubles, such as a limit below `2 ^ (-1022)`, this is not the double. -/
def toDouble (x : ℚ) : ℚ := roundTo 53 x

/-- `std::abs(price - reference_price) / reference_price`, rounded after every operation. -/
def deviation (price referencePrice : UInt32) : ℚ :=
  toDouble (|toDouble (toDouble price.toNat - toDouble referencePrice.toNat)| / toDouble referencePrice.toNat)

/-- The test `deviation > max_price_deviation_pct`. -/
def deviates (maxPriceDeviationPct : ℚ) (price referencePrice : UInt32) : Bool :=
  decide (maxPriceDeviationPct < deviation price referencePrice)

/-- `check_order` with its own price test. -/
def checkPricedOrder (engine : PreTradeRiskEngine) (maxPriceDeviationPct : ℚ) (side : UInt8)
    (shares price referencePrice : UInt32) : Option RiskCheckStatus :=
  engine.checkOrder side shares referencePrice (deviates maxPriceDeviationPct price referencePrice)

/-- How far the prices are apart. -/
def priceDifference (price referencePrice : UInt32) : ℕ :=
  ((price.toNat : ℤ) - referencePrice.toNat).natAbs

variable {price referencePrice : UInt32} {a b : ℕ}

lemma toDouble_natCast {n : ℕ} (h : n < 2 ^ 32) : toDouble n = n := by
  have hexact : roundTo 53 ((n : ℤ) : ℚ) = ((n : ℤ) : ℚ) := roundTo_intCast (by
    rw [Nat.abs_cast]
    exact_mod_cast h.trans (by norm_num))
  exact_mod_cast hexact

/-- Only the division rounds. -/
lemma deviation_eq (price referencePrice : UInt32) : deviation price referencePrice =
    toDouble ((priceDifference price referencePrice : ℚ) / referencePrice.toNat) := by
  have hprice := price.toNat_lt
  have href := referencePrice.toNat_lt
  have hdifference : toDouble ((price.toNat : ℚ) - referencePrice.toNat) = (price.toNat : ℚ) - referencePrice.toNat := by
    have hexact : roundTo 53 (((price.toNat : ℤ) - referencePrice.toNat : ℤ) : ℚ) =
        (((price.toNat : ℤ) - referencePrice.toNat : ℤ) : ℚ) := roundTo_intCast (by
      rw [abs_lt]
      omega)
    exact_mod_cast hexact
  rw [deviation,toDouble_natCast hprice,toDouble_natCast href,hdifference,priceDifference,Nat.cast_natAbs]
  push_cast
  rfl

lemma deviates_self {maxPriceDeviationPct : ℚ} (hpct : 0 ≤ maxPriceDeviationPct) (price : UInt32) :
    deviates maxPriceDeviationPct price price = false := by
  have hzero : deviation price price = 0 := by
    rw [deviation_eq]
    simp [priceDifference,toDouble]
  rw [deviates,hzero]
  exact decide_eq_false (not_lt.mpr hpct)

/-- Fractions whose denominators are small differ by more than the errors of their doubles. -/
lemma toDouble_lt_of_cross {d r : ℕ} (hr : 0 < r) (hb : 0 < b) (hsmall : a * r < 2 ^ 52 - 1) (h : a * r < b * d) :
    toDouble ((a : ℚ) / b) < toDouble ((d : ℚ) / r) := by
  have hrq : (0 : ℚ) < r := by exact_mod_cast hr
  have hbq : (0 : ℚ) < b := by exact_mod_cast hb
  apply roundTo_lt_roundTo (by positivity) (by positivity)
  have hcross : (a : ℚ) * r * (1 + 1 / 2 ^ 53) < b * d * (1 - 1 / 2 ^ 53) := by
    have hsmallq : (a : ℚ) * r + 2 ≤ 2 ^ 52 := by
      have hnat : a * r + 2 ≤ 2 ^ 52 := by omega
      exact_mod_cast hnat
    have hstep : (a : ℚ) * r + 1 ≤ (b : ℚ) * d := by exact_mod_cast h
    calc (a : ℚ) * r * (1 + 1 / 2 ^ 53) < ((a : ℚ) * r + 1) * (1 - 1 / 2 ^ 53) := by linarith
      _ ≤ (b : ℚ) * d * (1 - 1 / 2 ^ 53) := by gcongr
  calc (a : ℚ) / b * (1 + 1 / 2 ^ 53) = (a : ℚ) * r * (1 + 1 / 2 ^ 53) / ((b : ℚ) * r) := by field_simp
    _ < (b : ℚ) * d * (1 - 1 / 2 ^ 53) / ((b : ℚ) * r) := by gcongr
    _ = (d : ℚ) / r * (1 - 1 / 2 ^ 53) := by field_simp

/-- Against a limit of `a / b` the test in doubles is the comparison of integers. -/
theorem deviates_iff (hb : 0 < b) (ha : a < 2 ^ 20) (href : 0 < referencePrice) :
    deviates (toDouble ((a : ℚ) / b)) price referencePrice = true ↔
      a * referencePrice.toNat < b * priceDifference price referencePrice := by
  have hpos : 0 < referencePrice.toNat := by simpa using UInt32.lt_iff_toNat_lt.mp href
  have hlt := referencePrice.toNat_lt
  have hsmall : a * referencePrice.toNat < 2 ^ 52 - 1 :=
    calc a * referencePrice.toNat ≤ (2 ^ 20 - 1) * (2 ^ 32 - 1) := Nat.mul_le_mul (by omega) (by omega)
      _ < 2 ^ 52 - 1 := by norm_num
  rw [deviates,decide_eq_true_iff,deviation_eq]
  constructor
  · contrapose!
    intro hle
    apply roundTo_mono (by norm_num) (by positivity)
    rw [div_le_div_iff₀ (by exact_mod_cast hpos) (by exact_mod_cast hb)]
    have hle' : priceDifference price referencePrice * b ≤ a * referencePrice.toNat := by linarith
    exact_mod_cast hle'
  · exact toDouble_lt_of_cross hpos hb hsmall

/-- For every order the check in doubles decides exactly: the size, then the deviation compared as
`b * |price - reference| > a * reference` in integers, then the position. -/
theorem checkPricedOrder_exact (engine : PreTradeRiskEngine) (a b : ℕ) (hb : 0 < b) (ha : a < 2 ^ 20)
    (side : UInt8) (shares price referencePrice : UInt32) :
    engine.checkPricedOrder (toDouble ((a : ℚ) / b)) side shares price referencePrice =
      engine.checkOrder side shares referencePrice
        (decide (a * referencePrice.toNat < b * priceDifference price referencePrice)) := by
  by_cases href : 0 < referencePrice
  · have htest : deviates (toDouble ((a : ℚ) / b)) price referencePrice =
        decide (a * referencePrice.toNat < b * priceDifference price referencePrice) := by
      rw [Bool.eq_iff_iff,decide_eq_true_iff]
      exact deviates_iff hb ha href
    rw [checkPricedOrder,htest]
  · simp [checkPricedOrder,checkOrder,href]

/-- The limit of 5% at a reference price of 10000: a price of 10500 passes, 10501 does not. -/
theorem checkPricedOrder_exact_five_percent :
    let engine := init ⟨500,10000⟩
    engine.checkPricedOrder (toDouble ((5 : ℕ) / (100 : ℕ))) 'B'.toUInt8 100 10500 10000 = some .approved ∧
    engine.checkPricedOrder (toDouble ((5 : ℕ) / (100 : ℕ))) 'B'.toUInt8 100 10501 10000 = some .rejectedFatFinger := by
  intro engine
  rw [checkPricedOrder_exact engine 5 100 (by decide) (by decide),
    checkPricedOrder_exact engine 5 100 (by decide) (by decide)]
  decide +kernel

end TickToTrade.PreTradeRiskEngine
