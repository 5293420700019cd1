import CuprateConsensus.HardFork
import Mathlib.Data.List.GetD
import Mathlib.Algebra.BigOperators.Group.List

/-! # The vote counters

    `HFVotes` keeps one `u64` counter per fork in a `[u64; 16]`, indexed by the fork's
    discriminant less one. `votes_for_hf` sums the counters from a fork's index to the
    end of the array, so a vote for a later fork also counts for every earlier one.

    The abstract model is the multiset of votes added and not yet removed. The counters
    refine it through `tally` (Section 2): each operation keeps `votes = tally M`, and
    over a tally the suffix sum is the number of votes at or above the fork
    (`sum_drop_tally`). Section 3 lifts this to any sequence of calls.
-/

namespace Cuprate

/-- A struct holding the current voting state of the blockchain: `votes[i]` counts the
    votes for the fork whose discriminant is `i + 1`. -/
@[ext] structure HFVotes where
  votes : List Nat
  length_votes : votes.length = 16

namespace HFVotes

/-! ## Section 1: Operations -/

/-- `HFVotes::default()`: every counter at zero. -/
def default : HFVotes := ⟨List.replicate 16 0, List.length_replicate 16 0⟩

theorem index_lt (v : HFVotes) (hf : HardFork) : hf.toU8 - 1 < v.votes.length := by
  have := hf.toU8_le
  rw [v.length_votes]
  omega

/-- `HFVotes::add_votes_for_hf`: `self.votes[*hf as usize - 1] += votes`. -/
def addVotesForHf (v : HFVotes) (hf : HardFork) (votes : Nat) : Option HFVotes :=
  have := v.index_lt hf
  (checkedAdd v.votes[hf.toU8 - 1] votes).map fun c =>
    ⟨v.votes.set (hf.toU8 - 1) c, by rw [List.length_set, v.length_votes]⟩

/-- `HFVotes::add_vote_for_hf`. -/
def addVoteForHf (v : HFVotes) (hf : HardFork) : Option HFVotes :=
  v.addVotesForHf hf 1

/-- `HFVotes::remove_vote_for_hf`: `self.votes[*hf as usize - 1] -= 1`. -/
def removeVoteForHf (v : HFVotes) (hf : HardFork) : Option HFVotes :=
  have := v.index_lt hf
  (checkedSub v.votes[hf.toU8 - 1] 1).map fun c =>
    ⟨v.votes.set (hf.toU8 - 1) c, by rw [List.length_set, v.length_votes]⟩

/-- `HFVotes::votes_for_hf`: `self.votes[*hf as usize - 1..].iter().sum()`. -/
def votesForHf (v : HFVotes) (hf : HardFork) : Option Nat :=
  checkedSum (v.votes.drop (hf.toU8 - 1))

/-- `HFVotes::total_votes`. -/
def totalVotes (v : HFVotes) : Option Nat :=
  checkedSum v.votes

theorem addVotesForHf_spec (v : HFVotes) (hf : HardFork) (n : Nat) :
    (v.addVotesForHf hf n).map votes =
      (checkedAdd (v.votes.getD (hf.toU8 - 1) 0) n).map (v.votes.set (hf.toU8 - 1)) := by
  rw [List.getD_eq_getElem _ _ (v.index_lt hf), addVotesForHf, Option.map_map]
  rfl

theorem removeVoteForHf_spec (v : HFVotes) (hf : HardFork) :
    (v.removeVoteForHf hf).map votes =
      (checkedSub (v.votes.getD (hf.toU8 - 1) 0) 1).map (v.votes.set (hf.toU8 - 1)) := by
  rw [List.getD_eq_getElem _ _ (v.index_lt hf), removeVoteForHf, Option.map_map]
  rfl

/-! ## Section 2: Counters as a tally of votes -/

/-- The counters that tally the multiset of votes `M`. -/
def tally (M : List HardFork) : List Nat :=
  (List.range 16).map fun i => M.countP (·.toU8 - 1 = i)

theorem length_tally (M : List HardFork) : (tally M).length = 16 := by
  simp [tally]

/-- Every fork has its counter in a tally. -/
theorem index_lt_length_tally (M : List HardFork) (hf : HardFork) :
    hf.toU8 - 1 < (tally M).length := by
  have := hf.toU8_le
  rw [length_tally]
  omega

theorem getElem_tally (M : List HardFork) {i : Nat} (h : i < (tally M).length) :
    (tally M)[i] = M.countP (·.toU8 - 1 = i) := by
  simp [tally]

theorem tally_perm {M M' : List HardFork} (h : M.Perm M') : tally M = tally M' := by
  simp only [tally, h.countP_eq]

/-- Counters that hold the tally of `M` are the counters built from that tally. -/
theorem eq_mk_tally {v : HFVotes} {M : List HardFork} (h : v.votes = tally M) :
    v = ⟨tally M, length_tally M⟩ :=
  HFVotes.ext h

@[simp] theorem tally_nil : tally [] = List.replicate 16 0 := rfl

/-- Adding `n` votes for `hf` adds `n` to its counter and leaves the others. -/
theorem tally_replicate_append (M : List HardFork) (hf : HardFork) (n : Nat) :
    tally (List.replicate n hf ++ M) =
      (tally M).set (hf.toU8 - 1) ((tally M).getD (hf.toU8 - 1) 0 + n) := by
  have hlt := index_lt_length_tally M hf
  apply List.ext_getElem (by simp [length_tally])
  intro i h₁ h₂
  rw [getElem_tally, List.getElem_set, List.countP_append, List.countP_replicate]
  by_cases h : hf.toU8 - 1 = i
  · subst i
    simp only [decide_True, if_true]
    rw [List.getD_eq_getElem _ _ hlt, getElem_tally, Nat.add_comm]
  · simp [h, getElem_tally]

theorem set_getD_self (l : List Nat) (i : Nat) : l.set i (l.getD i 0) = l := by
  apply List.ext_getElem (by simp)
  intro j h₁ h₂
  rw [List.getElem_set]
  split <;> simp_all [List.getD_eq_getElem]

/-- Removing a vote for `hf` present in `M` takes one off its counter. -/
theorem tally_erase {M : List HardFork} {hf : HardFork} (h : hf ∈ M) :
    tally M = (tally (M.erase hf)).set (hf.toU8 - 1)
      ((tally (M.erase hf)).getD (hf.toU8 - 1) 0 + 1) := by
  rw [← tally_replicate_append, tally_perm (List.perm_cons_erase h)]
  rfl

/-- One more vote for `i` raises the sum of every suffix that contains `i` by one. -/
theorem sum_drop_set_add_one (l : List Nat) :
    ∀ i k, i < l.length →
      ((l.set i (l.getD i 0 + 1)).drop k).sum = (l.drop k).sum + if k ≤ i then 1 else 0 := by
  induction l with
  | nil => simp
  | cons x xs ih =>
    intro i k hi
    cases i with
    | zero => cases k <;> simp [Nat.add_right_comm]
    | succ i =>
      have hi' : i < xs.length := by simpa using hi
      cases k with
      | zero =>
        have := ih i 0 hi'
        simp only [List.drop_zero, Nat.zero_le, if_true] at this
        simp only [List.getD_cons_succ, List.set_cons_succ, List.drop_zero, List.sum_cons, this,
          Nat.zero_le, if_true, Nat.add_assoc]
      | succ k => simpa using ih i k hi'

/-- Over a tally, the counters from index `k` on sum to the votes whose index is at
    least `k`. -/
theorem sum_drop_tally (M : List HardFork) (k : Nat) :
    ((tally M).drop k).sum = M.countP (k ≤ ·.toU8 - 1) := by
  induction M with
  | nil => rw [tally_nil, List.drop_replicate]; simp
  | cons w M ih =>
    have hlt := index_lt_length_tally M w
    have := tally_replicate_append M w 1
    simp only [List.replicate_one, List.singleton_append] at this
    rw [this, sum_drop_set_add_one _ _ _ hlt, ih, List.countP_cons]
    simp

theorem sum_tally (M : List HardFork) : (tally M).sum = M.length := by
  simpa [List.countP_true] using sum_drop_tally M 0

/-- The index order of `votes_for_hf` is the derived order of `HardFork`. -/
theorem index_le_index_iff {a b : HardFork} : a.toU8 - 1 ≤ b.toU8 - 1 ↔ a ≤ b := by
  have := a.toU8_pos
  have := b.toU8_pos
  rw [HardFork.le_iff_toU8_le]
  omega

/-! ### The operations on a tally -/

section tallied

variable {v : HFVotes} {M : List HardFork}

theorem addVotesForHf_tally (hv : v.votes = tally M) (hf : HardFork) (n : Nat)
    (hlen : M.length + n < wordSize) :
    ∃ v', v.addVotesForHf hf n = some v' ∧ v'.votes = tally (List.replicate n hf ++ M) := by
  have hc : (tally M).getD (hf.toU8 - 1) 0 ≤ M.length := by
    rw [List.getD_eq_getElem _ _ (index_lt_length_tally M hf), getElem_tally]
    exact List.countP_le_length _
  have h := addVotesForHf_spec v hf n
  rw [hv, checkedAdd_of_lt (by omega), Option.map_some', ← tally_replicate_append] at h
  exact Option.map_eq_some'.1 h

theorem addVoteForHf_tally (hv : v.votes = tally M) (hf : HardFork)
    (hlen : M.length + 1 < wordSize) :
    ∃ v', v.addVoteForHf hf = some v' ∧ v'.votes = tally (hf :: M) :=
  addVotesForHf_tally hv hf 1 hlen

theorem removeVoteForHf_tally (hv : v.votes = tally M) {hf : HardFork} (hm : hf ∈ M) :
    ∃ v', v.removeVoteForHf hf = some v' ∧ v'.votes = tally (M.erase hf) := by
  have hlt := index_lt_length_tally (M.erase hf) hf
  have hget : ((tally (M.erase hf)).set (hf.toU8 - 1)
      ((tally (M.erase hf)).getD (hf.toU8 - 1) 0 + 1)).getD (hf.toU8 - 1) 0 =
      (tally (M.erase hf)).getD (hf.toU8 - 1) 0 + 1 := by
    rw [List.getD_eq_getElem _ _ (by rwa [List.length_set]), List.getElem_set_self]
  have h := removeVoteForHf_spec v hf
  rw [hv, tally_erase hm, hget, checkedSub_of_le (Nat.le_add_left 1 _), Option.map_some',
    Nat.add_sub_cancel, List.set_set, set_getD_self] at h
  exact Option.map_eq_some'.1 h

theorem votesForHf_tally (hv : v.votes = tally M) (hlen : M.length < wordSize) (hf : HardFork) :
    v.votesForHf hf = some (M.countP (hf ≤ ·)) := by
  have hsum := sum_drop_tally M (hf.toU8 - 1)
  simp only [index_le_index_iff] at hsum
  rw [votesForHf, hv, checkedSum_of_lt (hsum ▸ (List.countP_le_length _).trans_lt hlen), hsum]

theorem totalVotes_tally (hv : v.votes = tally M) (hlen : M.length < wordSize) :
    v.totalVotes = some M.length := by
  rw [totalVotes, hv, checkedSum_of_lt (by rwa [sum_tally]), sum_tally]

end tallied

/-! ## Section 3: Sequences of calls -/

/-- A call on the vote counters. -/
inductive VoteOp
  | addVotesForHf (hf : HardFork) (votes : Nat)
  | addVoteForHf (hf : HardFork)
  | removeVoteForHf (hf : HardFork)

namespace VoteOp

/-- The multiset of votes added and not yet removed, after the call. -/
def votesAfter (M : List HardFork) : VoteOp → List HardFork
  | addVotesForHf hf n => List.replicate n hf ++ M
  | addVoteForHf hf => hf :: M
  | removeVoteForHf hf => M.erase hf

/-- What a call needs: a vote it removes is present. -/
def Allowed (M : List HardFork) : VoteOp → Prop
  | removeVoteForHf hf => hf ∈ M
  | _ => True

/-- A sequence of calls from the votes `M` in which every removed vote is present and
    fewer than `2^64` votes are tracked after every call. -/
def Valid : List HardFork → List VoteOp → Prop
  | _, [] => True
  | M, op :: ops => op.Allowed M ∧ (op.votesAfter M).length < wordSize ∧ Valid (op.votesAfter M) ops

theorem Valid.length_lt : ∀ {M : List HardFork} {ops : List VoteOp}, Valid M ops →
    M.length < wordSize → (ops.foldl votesAfter M).length < wordSize
  | _, [], _, h => h
  | _, _ :: _, ⟨_, hlen, hops⟩, _ => hops.length_lt hlen

end VoteOp

/-- Make one call; `none` is a panic. -/
def apply (v : HFVotes) : VoteOp → Option HFVotes
  | .addVotesForHf hf n => v.addVotesForHf hf n
  | .addVoteForHf hf => v.addVoteForHf hf
  | .removeVoteForHf hf => v.removeVoteForHf hf

/-- Make a sequence of calls in order. -/
def applyAll (v : HFVotes) (ops : List VoteOp) : Option HFVotes :=
  ops.foldlM apply v

/-- One allowed call keeps the counters a tally of the live votes. -/
theorem apply_tally {v : HFVotes} {M : List HardFork} (hv : v.votes = tally M) {op : VoteOp}
    (hop : op.Allowed M) (hlen : (op.votesAfter M).length < wordSize) :
    ∃ v', v.apply op = some v' ∧ v'.votes = tally (op.votesAfter M) := by
  cases op with
  | addVotesForHf hf n =>
    exact addVotesForHf_tally hv hf n (by simpa [VoteOp.votesAfter, Nat.add_comm] using hlen)
  | addVoteForHf hf => exact addVoteForHf_tally hv hf (by simpa [VoteOp.votesAfter] using hlen)
  | removeVoteForHf hf => exact removeVoteForHf_tally hv hop

/-- A valid sequence of calls never panics and keeps the counters a tally of the live
    votes. -/
theorem applyAll_tally (ops : List VoteOp) :
    ∀ {v : HFVotes} {M : List HardFork}, v.votes = tally M → VoteOp.Valid M ops →
      ∃ v', v.applyAll ops = some v' ∧ v'.votes = tally (ops.foldl VoteOp.votesAfter M) := by
  induction ops with
  | nil => exact fun hv _ => ⟨_, rfl, hv⟩
  | cons op ops ih =>
    rintro v M hv ⟨hop, hlen, hops⟩
    obtain ⟨v', h₁, h₂⟩ := apply_tally hv hop hlen
    obtain ⟨v'', h₃, h₄⟩ := ih h₂ hops
    exact ⟨v'', by simpa [applyAll, h₁] using h₃, h₄⟩

/-- Starting from `HFVotes::default()`, any sequence of calls that removes only live
    votes and tracks fewer than `2^64` of them never panics, `total_votes` counts the
    live votes, and `votes_for_hf hf` counts the live votes at or above `hf`; hence
    `votes_for_hf V1 = total_votes` and `votes_for_hf` falls as the fork rises. -/
theorem votesForHf_eq_votes_at_or_above (ops : List VoteOp) (hops : VoteOp.Valid [] ops) :
    ∃ v, default.applyAll ops = some v ∧
      v.totalVotes = some (ops.foldl VoteOp.votesAfter []).length ∧
      (∀ hf, v.votesForHf hf = some ((ops.foldl VoteOp.votesAfter []).countP (hf ≤ ·))) ∧
      v.votesForHf .V1 = v.totalVotes ∧
      ∀ a b x y, a ≤ b → v.votesForHf a = some x → v.votesForHf b = some y → y ≤ x := by
  obtain ⟨v, hrun, hv⟩ := applyAll_tally ops (v := default) (M := []) rfl hops
  have hlen := hops.length_lt (by simp [wordSize])
  refine ⟨v, hrun, totalVotes_tally hv hlen, votesForHf_tally hv hlen, ?_, ?_⟩
  · rw [votesForHf_tally hv hlen, totalVotes_tally hv hlen, List.countP_eq_length.2]
    exact fun w _ => decide_eq_true (HardFork.V1_le w)
  · intro a b x y hab hx hy
    rw [votesForHf_tally hv hlen] at hx hy
    cases hx; cases hy
    exact List.countP_mono_left fun w _ hw => decide_eq_true
      (hab.trans (of_decide_eq_true hw))

theorem votesForHf_eq_votes_at_or_above_three_calls :
    VoteOp.Valid [] [.addVoteForHf .V3, .addVotesForHf .V5 2, .removeVoteForHf .V3] ∧
      ∃ v, default.applyAll [.addVoteForHf .V3, .addVotesForHf .V5 2, .removeVoteForHf .V3] =
          some v ∧
        v.totalVotes = some ([VoteOp.addVoteForHf .V3, .addVotesForHf .V5 2,
          .removeVoteForHf .V3].foldl VoteOp.votesAfter []).length ∧
        (∀ hf, v.votesForHf hf = some (([VoteOp.addVoteForHf .V3, .addVotesForHf .V5 2,
          .removeVoteForHf .V3].foldl VoteOp.votesAfter []).countP (hf ≤ ·))) ∧
        v.votesForHf .V1 = v.totalVotes ∧
        ∀ a b x y, a ≤ b → v.votesForHf a = some x → v.votesForHf b = some y → y ≤ x :=
  have hops : VoteOp.Valid [] [.addVoteForHf .V3, .addVotesForHf .V5 2, .removeVoteForHf .V3] := by
    simp [VoteOp.Valid, VoteOp.Allowed, VoteOp.votesAfter, wordSize]
  ⟨hops, votesForHf_eq_votes_at_or_above _ hops⟩

end HFVotes

end Cuprate
