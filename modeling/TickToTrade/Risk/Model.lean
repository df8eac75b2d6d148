import Mathlib.Data.Int.Order.Basic
import Mathlib.Tactic.Linarith

/-! The pre-trade risk engine. Positions are integers in the range of `int64_t`; a check whose
arithmetic would leave that range has no result, while the atomic addition of an update wraps.
The floating-point comparison of the price deviation enters as its outcome. -/
namespace TickToTrade

inductive RiskCheckStatus
  | approved
  | rejectedFatFinger
  | rejectedMaxOrderSize
  | rejectedMaxPosition
  deriving DecidableEq, Repr

structure RiskConfig where
  maxOrderSize : UInt32
  maxPosition : ℤ
  deriving DecidableEq, Repr

structure PreTradeRiskEngine where
  config : RiskConfig
  currentPosition : ℤ
  deriving DecidableEq, Repr

namespace PreTradeRiskEngine

def init (config : RiskConfig) : PreTradeRiskEngine := ⟨config,0⟩

/-- Shares counted positive for side `B` and negative for every other side. -/
def signedShares (side : UInt8) (shares : UInt32) : ℤ :=
  if side = 'B'.toUInt8 then (shares.toNat : ℤ) else -(shares.toNat : ℤ)

/-- `check_order`; `deviates` is the outcome of the price-deviation test, which is made only
against a positive reference price. -/
def checkOrder (engine : PreTradeRiskEngine) (side : UInt8) (shares referencePrice : UInt32)
    (deviates : Bool) : Option RiskCheckStatus :=
  if engine.config.maxOrderSize < shares then some .rejectedMaxOrderSize
  else if 0 < referencePrice ∧ deviates then some .rejectedFatFinger
  else
    let newPos := engine.currentPosition + signedShares side shares
    -- outside this range the sum, or its absolute value, overflows
    if |newPos| < 2 ^ 63 then
      if engine.config.maxPosition < |newPos| then some .rejectedMaxPosition else some .approved
    else none

/-- `fetch_add` on the atomic position, in two's complement. -/
def updatePosition (engine : PreTradeRiskEngine) (executedQty : ℤ) : PreTradeRiskEngine :=
  { engine with currentPosition := (engine.currentPosition + executedQty).bmod (2 ^ 64) }

variable {engine : PreTradeRiskEngine} {side : UInt8} {shares referencePrice : UInt32} {deviates : Bool}

/-- What an approval has checked. -/
theorem approved_spec (h : engine.checkOrder side shares referencePrice deviates = some .approved) :
    shares ≤ engine.config.maxOrderSize ∧
    |engine.currentPosition + signedShares side shares| < 2 ^ 63 ∧
    |engine.currentPosition + signedShares side shares| ≤ engine.config.maxPosition := by
  unfold checkOrder at h
  split at h
  · contradiction
  · rename_i hsize
    split at h
    · contradiction
    · dsimp only at h
      split at h
      · rename_i hrange
        split at h
        · contradiction
        · rename_i hlimit
          exact ⟨UInt32.not_lt.mp hsize,hrange,Int.not_lt.mp hlimit⟩
      · contradiction

/-- Inside the range of `int64_t` an update is exact. -/
theorem updatePosition_exact {q : ℤ} (h : |engine.currentPosition + q| < 2 ^ 63) :
    (engine.updatePosition q).currentPosition = engine.currentPosition + q := by
  have hrange := abs_lt.mp h
  exact Int.bmod_eq_of_le (by omega) (by omega)

lemma signedShares_abs (side : UInt8) (shares : UInt32) : |signedShares side shares| = shares.toNat := by
  unfold signedShares
  split <;> simp

theorem checkOrder_isSome_of_range (h : |engine.currentPosition + signedShares side shares| < 2 ^ 63) :
    (engine.checkOrder side shares referencePrice deviates).isSome := by
  unfold checkOrder
  split
  · rfl
  · split
    · rfl
    · dsimp only
      rw [if_pos h]
      split <;> rfl

/-- As long as the position leaves room for one order, the check does not overflow. -/
theorem checkOrder_isSome (h : |engine.currentPosition| < 2 ^ 63 - 2 ^ 32) :
    (engine.checkOrder side shares referencePrice deviates).isSome := by
  have hshares := signedShares_abs side shares
  have hlt := shares.toNat_lt
  have hsum := abs_add_le engine.currentPosition (signedShares side shares)
  apply checkOrder_isSome_of_range
  rw [hshares] at hsum
  omega

end PreTradeRiskEngine
end TickToTrade
