import Mathlib.Data.List.Basic
import Mathlib.Algebra.Order.Ring.Nat

/-! # Machine words, errors and networks

    The consensus caches compute on `u64` and `usize` values. In the debug build the
    crate is tested in, an arithmetic overflow or underflow, an index out of bounds,
    a failed `assert!` or `debug_assert!`, an `expect` on an `Err` and a `todo!()` all
    panic. The model keeps these values as `Nat` and evaluates every operation that
    can leave the 64-bit range through a checked form returning `Option`; `none` is
    the panic. `usize` is taken to be 64 bits wide, as on the targets the node runs on.

    Block heights are the one exception: `tip_height + 1` and `last_height + 1`
    overflow only at `u64::MAX`, a height no chain reaches, and are taken unchecked.
    Subtractions on heights can underflow at height zero and stay checked.
-/

namespace Cuprate

/-! ## Section 1: Checked arithmetic -/

/-- One more than `u64::MAX` (and `usize::MAX` on a 64-bit target). -/
def wordSize : Nat := 2 ^ 64

theorem wordSize_eq : wordSize = 18446744073709551616 := rfl

/-- `a + b` on `u64`/`usize`: `none` is the overflow panic. -/
def checkedAdd (a b : Nat) : Option Nat :=
  if a + b < wordSize then some (a + b) else none

/-- `a - b` on `u64`/`usize`: `none` is the underflow panic. This is also
    `u64::checked_sub`, whose `None` the caller handles. -/
def checkedSub (a b : Nat) : Option Nat :=
  if b ≤ a then some (a - b) else none

/-- `a * b` on `u64`/`usize`: `none` is the overflow panic. -/
def checkedMul (a b : Nat) : Option Nat :=
  if a * b < wordSize then some (a * b) else none

/-- `Iterator::sum` over `u64` values, which panics as soon as a partial sum overflows. -/
def checkedSum (l : List Nat) : Option Nat :=
  l.foldlM checkedAdd 0

theorem checkedAdd_of_lt {a b : Nat} (h : a + b < wordSize) : checkedAdd a b = some (a + b) :=
  if_pos h

theorem checkedSub_of_le {a b : Nat} (h : b ≤ a) : checkedSub a b = some (a - b) :=
  if_pos h

theorem checkedMul_of_lt {a b : Nat} (h : a * b < wordSize) : checkedMul a b = some (a * b) :=
  if_pos h

@[simp] theorem checkedAdd_eq_some {a b c : Nat} :
    checkedAdd a b = some c ↔ a + b < wordSize ∧ a + b = c := by
  unfold checkedAdd; split <;> simp_all

@[simp] theorem checkedSub_eq_some {a b c : Nat} :
    checkedSub a b = some c ↔ b ≤ a ∧ a - b = c := by
  unfold checkedSub; split <;> simp_all

@[simp] theorem checkedMul_eq_none {a b : Nat} : checkedMul a b = none ↔ wordSize ≤ a * b := by
  unfold checkedMul; split <;> simp_all

@[simp] theorem checkedSub_eq_none {a b : Nat} : checkedSub a b = none ↔ a < b := by
  unfold checkedSub; split <;> simp_all

/-- A sum from `acc` that ends below `wordSize` never overflows on the way. -/
theorem foldlM_checkedAdd_of_lt (l : List Nat) :
    ∀ acc, acc + l.sum < wordSize → l.foldlM checkedAdd acc = some (acc + l.sum) := by
  induction l with
  | nil => simp
  | cons x xs ih =>
    intro acc h
    simp only [List.sum_cons, List.foldlM_cons] at h ⊢
    rw [checkedAdd_of_lt (by omega)]
    simpa [Nat.add_assoc] using ih (acc + x) (by omega)

/-- A sum from `acc` that completes never overflowed: it ends below `wordSize`, at the
    true sum. -/
theorem foldlM_checkedAdd_eq_some (l : List Nat) :
    ∀ acc c, acc < wordSize → l.foldlM checkedAdd acc = some c →
      acc + l.sum < wordSize ∧ acc + l.sum = c := by
  induction l with
  | nil =>
    intro acc c hacc h
    cases h
    simpa using hacc
  | cons x xs ih =>
    intro acc c _ h
    simp only [List.foldlM_cons, Option.bind_eq_bind, Option.bind_eq_some,
      checkedAdd_eq_some] at h
    obtain ⟨_, ⟨hlt, rfl⟩, h⟩ := h
    rw [List.sum_cons, ← Nat.add_assoc]
    exact ih _ _ hlt h

theorem checkedSum_of_lt {l : List Nat} (h : l.sum < wordSize) : checkedSum l = some l.sum := by
  simpa using foldlM_checkedAdd_of_lt l 0 (by simpa using h)

@[simp] theorem checkedSum_eq_some {l : List Nat} {c : Nat} :
    checkedSum l = some c ↔ l.sum < wordSize ∧ l.sum = c := by
  constructor
  · intro h
    simpa using foldlM_checkedAdd_eq_some l 0 c (by simp [wordSize]) h
  · rintro ⟨h, rfl⟩
    exact checkedSum_of_lt h

/-! ## Section 2: Errors and networks -/

/-- Modelled from the spec: `ConsensusError` is declared outside these files. The model
    keeps the variant they raise, with its message, and the chain-store failure that
    `?` converts into it (the spec's `ChainStoreError`). -/
inductive ConsensusError
  | invalidHardForkVersion (msg : String)
  | database
  deriving DecidableEq, Repr

/-- Modelled from the spec: `cuprate_common::Network`. -/
inductive Network
  | mainnet
  | testnet
  | stagenet
  deriving DecidableEq, Repr

end Cuprate
