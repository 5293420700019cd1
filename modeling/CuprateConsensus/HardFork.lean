import CuprateConsensus.Primitives
import Mathlib.Order.Basic
import Mathlib.Data.Fintype.Basic
import Mathlib.Tactic.DeriveFintype

/-! # Hard forks

    `HardFork` and the functions of `hardforks.rs` that compute on a single fork:
    decoding a block's version and vote bytes, the successor fork, the voting
    threshold and the activation heights.

    The last section states what the spec calls the hard-fork schedule, the greatest
    fork whose mainnet activation height has been reached, and proves the one fact
    about the activation table everything else rests on: it is strictly increasing,
    so that a fork is at or below the scheduled fork exactly when its height has been
    reached (`le_scheduledFork_iff`).
-/

namespace Cuprate

/-- An identifier for every hard-fork Monero has had. -/
inductive HardFork
  | V1 | V2 | V3 | V4 | V5 | V6 | V7 | V8
  | V9 | V10 | V11 | V12 | V13 | V14 | V15 | V16
  deriving DecidableEq, Repr, Fintype

namespace HardFork

/-! ## Section 1: Discriminants, decoding and order -/

/-- The discriminant `hf as u8` of the `#[repr(u8)]` enum: `V1 = 1`, each later variant
    one more. -/
def toU8 : HardFork → Nat
  | V1 => 1 | V2 => 2 | V3 => 3 | V4 => 4 | V5 => 5 | V6 => 6 | V7 => 7 | V8 => 8
  | V9 => 9 | V10 => 10 | V11 => 11 | V12 => 12 | V13 => 13 | V14 => 14 | V15 => 15
  | V16 => 16

/-- `HardFork::from_version`: the fork of a block's `major_version` byte. -/
def fromVersion (version : Nat) : Except ConsensusError HardFork :=
  match version with
  | 1 => .ok V1 | 2 => .ok V2 | 3 => .ok V3 | 4 => .ok V4
  | 5 => .ok V5 | 6 => .ok V6 | 7 => .ok V7 | 8 => .ok V8
  | 9 => .ok V9 | 10 => .ok V10 | 11 => .ok V11 | 12 => .ok V12
  | 13 => .ok V13 | 14 => .ok V14 | 15 => .ok V15 | 16 => .ok V16
  | _ => .error (.invalidHardForkVersion "Version is not a known hard fork")

/-- Decoding a fork's discriminant gives the fork back. -/
@[simp] theorem fromVersion_toU8 (hf : HardFork) : fromVersion hf.toU8 = .ok hf := by
  cases hf <;> rfl

theorem toU8_injective : Function.Injective toU8 := fun a b h =>
  Except.ok.inj ((fromVersion_toU8 a).symm.trans (h ▸ fromVersion_toU8 b))

/-- The derived `PartialOrd`/`Ord` of the source: variants compare in declaration
    order, which is the order of their discriminants. -/
instance : LinearOrder HardFork := LinearOrder.lift' toU8 toU8_injective

theorem le_iff_toU8_le {a b : HardFork} : a ≤ b ↔ a.toU8 ≤ b.toU8 := Iff.rfl

theorem lt_iff_toU8_lt {a b : HardFork} : a < b ↔ a.toU8 < b.toU8 := Iff.rfl

theorem toU8_pos (hf : HardFork) : 1 ≤ hf.toU8 := by cases hf <;> decide

theorem toU8_le (hf : HardFork) : hf.toU8 ≤ 16 := by cases hf <;> decide

theorem le_V16 (hf : HardFork) : hf ≤ V16 := le_iff_toU8_le.2 (toU8_le hf)

theorem V1_le (hf : HardFork) : V1 ≤ hf := le_iff_toU8_le.2 (toU8_pos hf)

/-! ## Section 2: Decoding a block's version and vote -/

theorem fromVersion_eq_ok_iff {version : Nat} {hf : HardFork} :
    fromVersion version = .ok hf ↔ hf.toU8 = version := by
  constructor
  · unfold fromVersion
    split <;> intro h <;> cases h <;> rfl
  · rintro rfl
    exact fromVersion_toU8 hf

/-- Every byte that is no fork's discriminant is refused, with the source's message. -/
theorem fromVersion_eq_error {version : Nat} (h : ∀ hf : HardFork, hf.toU8 ≠ version) :
    fromVersion version = .error (.invalidHardForkVersion "Version is not a known hard fork") := by
  match hv : fromVersion version with
  | .ok hf => exact absurd (fromVersion_eq_ok_iff.1 hv) (h hf)
  | .error e =>
    revert hv
    unfold fromVersion
    split <;> intro hv <;> cases hv
    rfl

/-- `HardFork::from_vote`: the fork of a block's `minor_version` (vote) byte. A vote of
    0 counts as `V1`, what Monero used to default to; any other unknown vote counts as
    the latest fork. -/
def fromVote (vote : Nat) : HardFork :=
  if vote = 0 then V1
  else
    match fromVersion vote with
    | .ok hf => hf
    | .error _ => V16

/-! ## Section 3: Successor, threshold and activation heights -/

/-- `HardFork::next_fork`: the fork whose discriminant is one more, if there is one. -/
def nextFork (hf : HardFork) : Option HardFork :=
  (fromVersion (hf.toU8 + 1)).toOption

theorem nextFork_eq_some_iff {hf n : HardFork} : hf.nextFork = some n ↔ n.toU8 = hf.toU8 + 1 := by
  rw [nextFork, ← fromVersion_eq_ok_iff]
  cases fromVersion (hf.toU8 + 1) <;> simp [Except.toOption]

theorem nextFork_eq_none_iff {hf : HardFork} : hf.nextFork = none ↔ hf = V16 := by
  revert hf
  decide

/-- Below the successor of `hf` lie exactly the forks up to `hf`. -/
theorem lt_of_nextFork {hf n w : HardFork} (h : hf.nextFork = some n) : w < n ↔ w ≤ hf := by
  rw [lt_iff_toU8_lt, le_iff_toU8_le, nextFork_eq_some_iff.1 h]
  omega

/-- `HardFork::fork_threshold`: no Monero hard fork actually uses voting. -/
def forkThreshold (_hf : HardFork) (_network : Network) : Nat := 0

/-- `HardFork::votes_needed`: `(threshold * window + 99) / 100`. -/
def votesNeeded (hf : HardFork) (network : Network) (window : Nat) : Option Nat := do
  let votes ← checkedMul (hf.forkThreshold network) window
  let votes ← checkedAdd votes 99
  pure (votes / 100)

/-- With every threshold at 0 no vote is ever needed, on any network and window. -/
@[simp] theorem votesNeeded_eq_zero (hf : HardFork) (network : Network) (window : Nat) :
    hf.votesNeeded network window = some 0 := by
  simp [votesNeeded, forkThreshold, checkedMul, checkedAdd, wordSize]

/-- `HardFork::mainnet_fork_height`. -/
def mainnetForkHeight : HardFork → Nat
  | V1 => 0 | V2 => 1009827 | V3 => 1141317 | V4 => 1220516
  | V5 => 1288616 | V6 => 1400000 | V7 => 1546000 | V8 => 1685555
  | V9 => 1686275 | V10 => 1788000 | V11 => 1788720 | V12 => 1978433
  | V13 => 2210000 | V14 => 2210720 | V15 => 2688888 | V16 => 2689608

/-- `HardFork::stagenet_fork_height`, whose body is `todo!()`: it panics. -/
def stagenetForkHeight (_hf : HardFork) : Option Nat := none

/-- `HardFork::testnet_fork_height`, whose body is `todo!()`: it panics. -/
def testnetForkHeight (_hf : HardFork) : Option Nat := none

/-- `HardFork::fork_height`: the minimum height the fork activates at. -/
def forkHeight (hf : HardFork) (network : Network) : Option Nat :=
  match network with
  | .mainnet => some hf.mainnetForkHeight
  | .stagenet => hf.stagenetForkHeight
  | .testnet => hf.testnetForkHeight

/-- `HardFork::in_range`: `start <= hf < end`. -/
def inRange (hf start stop : HardFork) : Bool :=
  decide (start ≤ hf ∧ hf < stop)

/-! ## Section 4: The mainnet schedule -/

/-- Every fork, in declaration order. -/
def all : List HardFork := [V1, V2, V3, V4, V5, V6, V7, V8, V9, V10, V11, V12, V13, V14, V15, V16]

theorem mem_all (hf : HardFork) : hf ∈ all := by
  cases hf <;> decide

/-- The spec's `version_at_or_below(height, Mainnet)`: the greatest fork whose mainnet
    activation height is at most `height`. -/
def scheduledFork (height : Nat) : HardFork :=
  (all.filter (·.mainnetForkHeight ≤ height)).foldl max V1

theorem mainnetForkHeight_strictMono : StrictMono mainnetForkHeight := by
  intro a b
  revert a b
  decide

theorem le_foldl_max_iff {a b : HardFork} {l : List HardFork} :
    a ≤ l.foldl max b ↔ a ≤ b ∨ ∃ w ∈ l, a ≤ w := by
  induction l generalizing b with
  | nil => simp
  | cons x xs ih => simp only [List.foldl_cons, ih, le_max_iff, List.exists_mem_cons_iff, or_assoc]

/-- A fork is at or below the scheduled fork exactly when its height has been reached. -/
theorem le_scheduledFork_iff {hf : HardFork} {height : Nat} :
    hf ≤ scheduledFork height ↔ hf.mainnetForkHeight ≤ height := by
  simp only [scheduledFork, le_foldl_max_iff, List.mem_filter, mem_all, true_and,
    decide_eq_true_eq]
  constructor
  · rintro (h | ⟨w, hw, h⟩)
    · rw [le_antisymm h (V1_le hf)]
      exact Nat.zero_le _
    · exact (mainnetForkHeight_strictMono.monotone h).trans hw
  · exact fun h => .inr ⟨hf, h, le_rfl⟩

theorem mainnetForkHeight_scheduledFork_le (height : Nat) :
    (scheduledFork height).mainnetForkHeight ≤ height :=
  le_scheduledFork_iff.1 le_rfl

theorem scheduledFork_mono {k k' : Nat} (h : k ≤ k') : scheduledFork k ≤ scheduledFork k' :=
  le_scheduledFork_iff.2 ((mainnetForkHeight_scheduledFork_le k).trans h)

end HardFork

/-! ## Section 5: A block's version and vote -/

/-- The two fields of `monero_serai::block::BlockHeader` that `from_block_header` reads. -/
structure BlockHeader where
  majorVersion : Nat
  minorVersion : Nat

/-- `BlockHFInfo`: the fork a block is built for and the fork it votes for. -/
structure BlockHFInfo where
  version : HardFork
  vote : HardFork
  deriving DecidableEq, Repr

namespace BlockHFInfo

/-- `BlockHFInfo::from_major_minor`. -/
def fromMajorMinor (majorVersion minorVersion : Nat) :
    Except ConsensusError BlockHFInfo := do
  let version ← HardFork.fromVersion majorVersion
  pure { version, vote := HardFork.fromVote minorVersion }

/-- `BlockHFInfo::from_block_header`. -/
def fromBlockHeader (blockHeader : BlockHeader) : Except ConsensusError BlockHFInfo :=
  fromMajorMinor blockHeader.majorVersion blockHeader.minorVersion

/-- A fork's discriminant read as a vote is that fork. -/
theorem fromVote_toU8 (hf : HardFork) : HardFork.fromVote hf.toU8 = hf := by
  rw [HardFork.fromVote, if_neg (by have := hf.toU8_pos; omega), HardFork.fromVersion_toU8]

end BlockHFInfo

end Cuprate
