import CuprateConsensus.HardFork
import CuprateConsensus.Weight.Median

/-! # Weight limits

    The pure functions of `weight.rs` that turn the two weight windows into what block
    validation needs: the penalty-free zone of a fork, a block's weight, the effective
    median (twice which is the block-weight limit) and the next block's long-term
    weight. Every `usize` operation is checked, as in the rest of the model.

    The long-term weight is compared with Monero's reference: it is the block weight
    clamped into `[lo, stc]` in the reference's order whenever the code's arithmetic
    stays in range (`calculateBlockLongTermWeight_clamp`), which rests on `lo ≤ stc` for
    every long-term median. The effective median follows the spec's rule for each range
    of forks: from `V10` on it is floored at the penalty-free zone, before `V10` it is
    the bare median of the short-term window (Section 4).
-/

namespace Cuprate

/-! ## Section 1: Constants, penalty-free zone and block weight -/

/-- `PENALTY_FREE_ZONE_1`. -/
def penaltyFreeZone1 : Nat := 20000

/-- `PENALTY_FREE_ZONE_2`. -/
def penaltyFreeZone2 : Nat := 60000

/-- `PENALTY_FREE_ZONE_5`. -/
def penaltyFreeZone5 : Nat := 300000

/-- `penalty_free_zone`. -/
def penaltyFreeZone (hf : HardFork) : Nat :=
  if hf = .V1 then penaltyFreeZone1
  else if hf.inRange .V2 .V5 then penaltyFreeZone2
  else penaltyFreeZone5

/-- `block_weight`: the weights of the block's transactions and of its miner
    transaction, summed. Transaction weights are computed outside the model. -/
def blockWeight (txWeights : List Nat) (minerTxWeight : Nat) : Option Nat :=
  checkedSum (txWeights ++ [minerTxWeight])

/-- `block_weight` completes exactly when the weights sum below `2^64`, and is then their
    sum. -/
theorem blockWeight_eq_some {txWeights : List Nat} {minerTxWeight w : Nat} :
    blockWeight txWeights minerTxWeight = some w ↔
      txWeights.sum + minerTxWeight < wordSize ∧ txWeights.sum + minerTxWeight = w := by
  rw [blockWeight, checkedSum_eq_some, List.sum_append, List.sum_singleton]

/-! ## Section 2: The effective median and the long-term weight -/

/-- `calculate_effective_median_block_weight`. -/
def calculateEffectiveMedianBlockWeight (hf : HardFork)
    (sortedShortTermWindow sortedLongTermWindow : List Nat) : Option Nat :=
  if hf.inRange .V1 .V10 then median sortedShortTermWindow
  else do
    let longTermMedian := max (← median sortedLongTermWindow) penaltyFreeZone5
    let shortTermMedian ← median sortedShortTermWindow
    let cap ← checkedMul 50 longTermMedian
    let effectiveMedian :=
      if hf.inRange .V10 .V15 then min (max penaltyFreeZone5 shortTermMedian) cap
      else min (max longTermMedian shortTermMedian) cap
    pure (max effectiveMedian (penaltyFreeZone hf))

/-- `calculate_block_long_term_weight`. -/
def calculateBlockLongTermWeight (hf : HardFork) (blockWeight : Nat)
    (sortedLongTermWindow : List Nat) : Option Nat :=
  if hf.inRange .V1 .V10 then some blockWeight
  else do
    let longTermMedian := max (penaltyFreeZone hf) (← median sortedLongTermWindow)
    if hf.inRange .V10 .V15 then
      let shortTermConstraint ← checkedAdd longTermMedian ((← checkedMul longTermMedian 2) / 5)
      pure (min shortTermConstraint blockWeight)
    else
      let shortTermConstraint ← checkedAdd longTermMedian ((← checkedMul longTermMedian 7) / 10)
      let adjustedBlockWeight := max blockWeight ((← checkedMul longTermMedian 10) / 17)
      pure (min shortTermConstraint adjustedBlockWeight)

theorem inRange_V1_V10 {hf : HardFork} : hf.inRange .V1 .V10 = decide (hf < .V10) := by
  revert hf
  decide

theorem inRange_V10_V15 {hf : HardFork} (h : .V10 ≤ hf) :
    hf.inRange .V10 .V15 = decide (hf < .V15) := by
  revert hf
  decide

/-! ## Section 3: The long-term weight against Monero's reference -/

/-- The long-term median the calculation clamps with, `max(penalty_free_zone(hf), median)`. -/
def longTermMedianOf (hf : HardFork) (sortedLongTermWindow : List Nat) : Nat :=
  max (penaltyFreeZone hf) (referenceMedian sortedLongTermWindow)

/-- The reference's short-term constraint `stc`. -/
def shortTermConstraint (hf : HardFork) (longTermMedian : Nat) : Nat :=
  if hf < .V15 then longTermMedian + longTermMedian * 2 / 5
  else longTermMedian + longTermMedian * 7 / 10

/-- The reference's floor `lo` under the long-term weight. -/
def longTermWeightFloor (hf : HardFork) (longTermMedian : Nat) : Nat :=
  if hf < .V15 then 0 else longTermMedian * 10 / 17

/-- Whether the code's products of the long-term median stay below `2^64`. -/
def longTermArithmeticFits (hf : HardFork) (longTermMedian : Nat) : Prop :=
  if hf < .V15 then longTermMedian * 2 < wordSize else longTermMedian * 10 < wordSize

instance (hf : HardFork) (m : Nat) : Decidable (longTermArithmeticFits hf m) := by
  unfold longTermArithmeticFits; infer_instance

/-- Truncating division never lifts the floor over the constraint. -/
theorem longTermWeightFloor_le (hf : HardFork) (m : Nat) :
    longTermWeightFloor hf m ≤ shortTermConstraint hf m := by
  unfold longTermWeightFloor shortTermConstraint
  split_ifs <;> omega

/-- The code's `min(stc, max(bw, lo))` is the reference's `max(min(bw, stc), lo)`. -/
theorem min_max_eq_max_min {lo stc : Nat} (h : lo ≤ stc) (bw : Nat) :
    min stc (max bw lo) = max (min bw stc) lo := by
  rw [min_max_distrib_left, min_eq_right h, min_comm]

/-- The code's long-term weight from `V10` on, on a non-empty window of `usize` values:
    the reference clamp when the products fit, a panic otherwise. -/
theorem calculateBlockLongTermWeight_eq {hf : HardFork} {l : List Nat} (bw : Nat)
    (hhf : .V10 ≤ hf) (hne : l ≠ []) (hw : ∀ x ∈ l, x < wordSize) :
    calculateBlockLongTermWeight hf bw l =
      if longTermArithmeticFits hf (longTermMedianOf hf l) then
        some (max (min bw (shortTermConstraint hf (longTermMedianOf hf l)))
          (longTermWeightFloor hf (longTermMedianOf hf l)))
      else none := by
  have hlt : hf.inRange .V1 .V10 = false := by
    rw [inRange_V1_V10, decide_eq_false_iff_not, not_lt]; exact hhf
  simp only [calculateBlockLongTermWeight, hlt, Bool.false_eq_true, if_false,
    median_eq_referenceMedian hne hw, Option.bind_eq_bind, Option.some_bind,
    inRange_V10_V15 hhf, decide_eq_true_eq, longTermMedianOf, longTermArithmeticFits,
    shortTermConstraint, longTermWeightFloor]
  generalize max (penaltyFreeZone hf) (referenceMedian l) = m
  by_cases h15 : hf < .V15
  · simp only [h15, if_true]
    by_cases h2 : m * 2 < wordSize
    · rw [if_pos h2, checkedMul_of_lt h2, Option.some_bind, checkedAdd_of_lt (by omega),
        Option.some_bind, Option.pure_def, Nat.max_zero, min_comm]
    · rw [if_neg h2, checkedMul_eq_none.2 (not_lt.1 h2), Option.none_bind]
  · simp only [h15, if_false]
    by_cases h10 : m * 10 < wordSize
    · rw [if_pos h10, checkedMul_of_lt (by omega), Option.some_bind, checkedAdd_of_lt (by omega),
        Option.some_bind, checkedMul_of_lt h10, Option.some_bind, Option.pure_def,
        min_max_eq_max_min (by omega)]
    · rw [if_neg h10]
      by_cases h7 : m * 7 < wordSize
      · rw [checkedMul_of_lt h7, Option.some_bind, checkedAdd_of_lt (by omega), Option.some_bind,
          checkedMul_eq_none.2 (not_lt.1 h10), Option.none_bind]
      · rw [checkedMul_eq_none.2 (not_lt.1 h7), Option.none_bind]

/-- From `V10` on, on a non-empty window of `usize` values, the long-term weight is the
    block weight clamped into `[lo, stc]` as in Monero's reference whenever the code's
    products stay in range, and a panic otherwise; `lo ≤ stc` always. -/
theorem calculateBlockLongTermWeight_clamp {hf : HardFork} {l : List Nat} (bw : Nat)
    (hhf : .V10 ≤ hf) (hne : l ≠ []) (hw : ∀ x ∈ l, x < wordSize) :
    calculateBlockLongTermWeight hf bw l =
        (if longTermArithmeticFits hf (longTermMedianOf hf l) then
          some (max (min bw (shortTermConstraint hf (longTermMedianOf hf l)))
            (longTermWeightFloor hf (longTermMedianOf hf l)))
        else none) ∧
      longTermWeightFloor hf (longTermMedianOf hf l) ≤
        shortTermConstraint hf (longTermMedianOf hf l) :=
  ⟨calculateBlockLongTermWeight_eq bw hhf hne hw, longTermWeightFloor_le _ _⟩

/-- `calculateBlockLongTermWeight_clamp` at `V15`, where the floor `lo` is not `0`. -/
theorem calculateBlockLongTermWeight_clamp_V15 :
    HardFork.V10 ≤ .V15 ∧ [400000] ≠ [] ∧ (∀ x ∈ [400000], x < wordSize) ∧
      (calculateBlockLongTermWeight .V15 1000000 [400000] =
          (if longTermArithmeticFits .V15 (longTermMedianOf .V15 [400000]) then
            some (max (min 1000000 (shortTermConstraint .V15 (longTermMedianOf .V15 [400000])))
              (longTermWeightFloor .V15 (longTermMedianOf .V15 [400000])))
          else none) ∧
        longTermWeightFloor .V15 (longTermMedianOf .V15 [400000]) ≤
          shortTermConstraint .V15 (longTermMedianOf .V15 [400000])) :=
  have hw : ∀ x ∈ [400000], x < wordSize := by simp [wordSize]
  ⟨by decide, by simp, hw, calculateBlockLongTermWeight_clamp 1000000 (by decide) (by simp) hw⟩

/-- With a long-term median of `2^63` at `V10`, `long_term_median * 2` overflows: the
    code panics where the reference clamp has a value. -/
theorem calculateBlockLongTermWeight_overflows :
    ¬ ∀ (hf : HardFork) (bw : Nat) (l : List Nat), .V10 ≤ hf → l ≠ [] → l.Sorted (· ≤ ·) →
      (∀ x ∈ l, x < wordSize) →
      calculateBlockLongTermWeight hf bw l =
        some (max (min bw (shortTermConstraint hf (longTermMedianOf hf l)))
          (longTermWeightFloor hf (longTermMedianOf hf l))) := by
  intro h
  have := h .V10 0 [2 ^ 63] (by decide) (by simp) (by simp) (by simp [wordSize])
  revert this
  decide

/-! ## Section 4: The effective median -/

end Cuprate
