import CuprateConsensus.Primitives
import Mathlib.Data.List.Sort
import Mathlib.Data.List.GetD

/-! # The integer median

    `median` of `weight.rs` on a sorted slice of `usize` values, and `get_mid`, the
    mean of two values written as in Monero's `epee::misc_utils::get_mid` so that it
    cannot overflow: the halves are added first, and the two dropped low bits after.

    Both are modelled with every `usize` operation checked, so `getMid a b = some m`
    says that no intermediate value of the formula left the 64-bit range. The main
    result, `median_exact`, says that on a non-empty slice of `usize` values `median`
    never panics and is the reference integer median `referenceMedian`, which for a
    sorted slice lies between the two middle elements.
-/

namespace Cuprate

/-- `get_mid`: `(a / 2) + (b / 2) + ((a - 2 * (a / 2)) + (b - 2 * (b / 2))) / 2`. -/
def getMid (a b : Nat) : Option Nat := do
  let halves ← checkedAdd (a / 2) (b / 2)
  let lowA ← checkedSub a (← checkedMul 2 (a / 2))
  let lowB ← checkedSub b (← checkedMul 2 (b / 2))
  let lows ← checkedAdd lowA lowB
  checkedAdd halves (lows / 2)

/-- `median` of a sorted slice. On an empty slice `mid - 1` underflows: the caller must
    not ask. -/
def median (array : List Nat) : Option Nat :=
  let mid := array.length / 2
  if array.length = 1 then array[0]?
  else if array.length % 2 = 0 then do
    let a ← array[← checkedSub mid 1]?
    let b ← array[mid]?
    getMid a b
  else array[mid]?

/-- The reference integer median of a sorted slice: its middle element when its length
    is odd, the floor of the mean of its two middle elements when it is even. -/
def referenceMedian (a : List Nat) : Nat :=
  if a.length % 2 = 1 then a.getD (a.length / 2) 0
  else (a.getD (a.length / 2 - 1) 0 + a.getD (a.length / 2) 0) / 2

/-! ## Section 1: `get_mid` -/

theorem getMid_eq {a b : Nat} (ha : a < wordSize) (hb : b < wordSize) :
    getMid a b = some ((a + b) / 2) := by
  rw [wordSize_eq] at ha hb
  have h₁ : a / 2 + b / 2 < wordSize := by rw [wordSize_eq]; omega
  have h₂ : 2 * (a / 2) < wordSize := by rw [wordSize_eq]; omega
  have h₃ : 2 * (b / 2) < wordSize := by rw [wordSize_eq]; omega
  have h₄ : a - 2 * (a / 2) + (b - 2 * (b / 2)) < wordSize := by rw [wordSize_eq]; omega
  have h₅ : a / 2 + b / 2 + (a - 2 * (a / 2) + (b - 2 * (b / 2))) / 2 < wordSize := by
    rw [wordSize_eq]; omega
  simp only [getMid, checkedAdd_of_lt h₁, checkedMul_of_lt h₂, checkedMul_of_lt h₃,
    checkedSub_of_le (Nat.mul_div_le a 2), checkedSub_of_le (Nat.mul_div_le b 2),
    checkedAdd_of_lt h₄, checkedAdd_of_lt h₅, Option.bind_eq_bind, Option.some_bind]
  congr 1
  omega

/-! ## Section 2: `median` -/

theorem median_eq_referenceMedian {a : List Nat} (hne : a ≠ []) (hw : ∀ x ∈ a, x < wordSize) :
    median a = some (referenceMedian a) := by
  have hpos := List.length_pos.2 hne
  have hmid : a.length / 2 < a.length := Nat.div_lt_self hpos (by decide)
  unfold median referenceMedian
  by_cases h₁ : a.length = 1
  · rw [if_pos h₁, if_pos (by omega), List.getElem?_eq_getElem hpos,
      List.getD_eq_getElem _ _ hmid]
    simp only [h₁]
  by_cases h₂ : a.length % 2 = 0
  · have hlo : a.length / 2 - 1 < a.length := by omega
    rw [if_neg h₁, if_pos h₂, if_neg (by omega), checkedSub_of_le (by omega),
      List.getD_eq_getElem _ _ hlo, List.getD_eq_getElem _ _ hmid]
    simp only [Option.pure_def, Option.bind_eq_bind, Option.some_bind,
      List.getElem?_eq_getElem hlo, List.getElem?_eq_getElem hmid]
    exact getMid_eq (hw _ (List.getElem_mem hlo)) (hw _ (List.getElem_mem hmid))
  · rw [if_neg h₁, if_neg h₂, if_pos (by omega), List.getElem?_eq_getElem hmid,
      List.getD_eq_getElem _ _ hmid]

/-- On a sorted slice the reference median lies between the two middle elements. -/
theorem referenceMedian_mem_middle {a : List Nat} (hs : a.Sorted (· ≤ ·)) (hne : a ≠ []) :
    a.getD ((a.length - 1) / 2) 0 ≤ referenceMedian a ∧
      referenceMedian a ≤ a.getD (a.length / 2) 0 := by
  have hpos := List.length_pos.2 hne
  unfold referenceMedian
  split_ifs with h
  · rw [show (a.length - 1) / 2 = a.length / 2 by omega]
    exact ⟨le_rfl, le_rfl⟩
  · have hlo : a.length / 2 - 1 < a.length := by omega
    have hmid : a.length / 2 < a.length := Nat.div_lt_self hpos (by decide)
    have hle : a[a.length / 2 - 1] ≤ a[a.length / 2] :=
      List.pairwise_iff_getElem.1 hs _ _ hlo hmid (by omega)
    rw [show (a.length - 1) / 2 = a.length / 2 - 1 by omega, List.getD_eq_getElem _ _ hlo,
      List.getD_eq_getElem _ _ hmid]
    omega

/-- `get_mid` is the floor of the mean of any two `usize` values, and no intermediate
    value of its formula overflows; so on every non-empty sorted slice of `usize`
    values `median` returns the reference integer median, which lies between the
    two middle elements. -/
theorem median_exact :
    (∀ x y, x < wordSize → y < wordSize → getMid x y = some ((x + y) / 2)) ∧
    ∀ a : List Nat, a ≠ [] → a.Sorted (· ≤ ·) → (∀ x ∈ a, x < wordSize) →
      median a = some (referenceMedian a) ∧
      a.getD ((a.length - 1) / 2) 0 ≤ referenceMedian a ∧
      referenceMedian a ≤ a.getD (a.length / 2) 0 :=
  ⟨fun _ _ => getMid_eq, fun _ hne hs hw =>
    ⟨median_eq_referenceMedian hne hw, referenceMedian_mem_middle hs hne⟩⟩

/-- `median_exact` at the spec's scenario S2, `[u64::MAX - 1, u64::MAX]`, where a naive
    `(a + b) / 2` would wrap. -/
theorem median_exact_at_u64_max :
    (wordSize - 2 < wordSize ∧ wordSize - 1 < wordSize ∧
      getMid (wordSize - 2) (wordSize - 1) = some ((wordSize - 2 + (wordSize - 1)) / 2)) ∧
    ([wordSize - 2, wordSize - 1] ≠ [] ∧ [wordSize - 2, wordSize - 1].Sorted (· ≤ ·) ∧
      (∀ x ∈ [wordSize - 2, wordSize - 1], x < wordSize) ∧
      median [wordSize - 2, wordSize - 1] = some (referenceMedian [wordSize - 2, wordSize - 1]) ∧
      [wordSize - 2, wordSize - 1].getD 0 0 ≤ referenceMedian [wordSize - 2, wordSize - 1] ∧
      referenceMedian [wordSize - 2, wordSize - 1] ≤ [wordSize - 2, wordSize - 1].getD 1 0) :=
  have h₂ : wordSize - 2 < wordSize := by rw [wordSize_eq]; omega
  have h₁ : wordSize - 1 < wordSize := by rw [wordSize_eq]; omega
  have hs : [wordSize - 2, wordSize - 1].Sorted (· ≤ ·) := by simp [wordSize_eq]
  have hw : ∀ x ∈ [wordSize - 2, wordSize - 1], x < wordSize := by simp [h₁, h₂]
  ⟨⟨h₂, h₁, median_exact.1 _ _ h₂ h₁⟩,
    ⟨by simp, hs, hw, median_exact.2 _ (by simp) hs hw⟩⟩

end Cuprate
