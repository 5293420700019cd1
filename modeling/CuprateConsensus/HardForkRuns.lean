import CuprateConsensus.HardForkRebuild
import Mathlib.Algebra.Order.BigOperators.Group.List

/-! # Runs of the hard-fork state over any store

    Most results of the modules before this one are stated over a store that answers
    from a fixed chain. This module asks what holds whatever the store answers to the
    point requests of `new_block`.

    Section 2 shows that the counters always hold exactly one vote for each of the last
    `min(last_height + 1, window)` blocks: `new_block` adds one vote and its eviction
    loop runs `total - window` times, each run taking one vote off, whatever the block
    the store names. So the `debug_assert_eq!` of `new_block` never fails on a reachable
    state, and no counter can overflow. Section 3 turns this into the exact panic
    condition of `new_block` on mainnet: it panics only when the store answers the
    request for the block leaving the window with something that is not a
    `BlockHFInfo`, or with the vote of no block still counted.

    Section 4 is about a failed `new_block` on a fixed chain. It does not leave the state
    it started from: `last_height` and the new vote are written before the store is asked
    for the block leaving the window. With `last_height` advanced, retrying the same
    block panics at the `assert_eq!`; but the next block, fed with the chain's store,
    evicts both blocks that are then out of the window and ends in exactly the state
    built one block higher: on mainnet the hard-fork state repairs itself after one
    block.

    Section 5 is about testnet and stagenet, whose fork heights are `todo!()`. The loop of
    `check_set_new_hf` asks for the next fork's height before anything else, so there a
    state exists only at `V16`: `init_from_chain_height` over a chain completes exactly
    when its top block is at `V16`, and every state reached from one is at `V16`.
-/

namespace Cuprate

namespace HFVotes

/-! ## Section 1: Counting the votes -/

/-- Adding a vote adds one to the sum of the counters. -/
theorem sum_addVoteForHf {v v' : HFVotes} {hf : HardFork} (h : v.addVoteForHf hf = some v') :
    v'.votes.sum = v.votes.sum + 1 := by
  have hs := addVotesForHf_spec v hf 1
  rw [show v.addVotesForHf hf 1 = some v' from h, Option.map_some'] at hs
  obtain ⟨c, hc, hv'⟩ := Option.map_eq_some'.1 hs.symm
  obtain ⟨-, rfl⟩ := checkedAdd_eq_some.1 hc
  rw [← hv']
  simpa using sum_drop_set_add_one v.votes (hf.toU8 - 1) 0 (v.index_lt hf)

/-- Removing a vote takes one off the sum of the counters. -/
theorem sum_removeVoteForHf {v v' : HFVotes} {hf : HardFork} (h : v.removeVoteForHf hf = some v') :
    v'.votes.sum + 1 = v.votes.sum := by
  have hs := removeVoteForHf_spec v hf
  rw [h, Option.map_some'] at hs
  obtain ⟨c, hc, hv'⟩ := Option.map_eq_some'.1 hs.symm
  obtain ⟨hle, rfl⟩ := checkedSub_eq_some.1 hc
  have hlt : hf.toU8 - 1 < (v.votes.set (hf.toU8 - 1) (v.votes.getD (hf.toU8 - 1) 0 - 1)).length := by
    simpa using v.index_lt hf
  have hsum := sum_drop_set_add_one _ _ 0 hlt
  simp only [List.drop_zero, Nat.zero_le, if_true, List.set_set] at hsum
  rw [← hv', ← hsum, List.getD_eq_getElem?_getD, List.getElem?_set_self (by simpa using hlt),
    Option.getD_some, Nat.sub_add_cancel hle, set_getD_self]

/-- A vote can be added while the counters sum below `2^64 - 1`. -/
theorem addVoteForHf_of_sum_lt (v : HFVotes) (hf : HardFork) (h : v.votes.sum + 1 < wordSize) :
    ∃ v', v.addVoteForHf hf = some v' ∧ v'.votes.sum = v.votes.sum + 1 := by
  have hle : v.votes.getD (hf.toU8 - 1) 0 ≤ v.votes.sum := by
    rw [List.getD_eq_getElem _ _ (v.index_lt hf)]
    exact List.le_sum_of_mem (List.getElem_mem _)
  have hs := addVotesForHf_spec v hf 1
  rw [checkedAdd_of_lt (by omega), Option.map_some'] at hs
  obtain ⟨v', hv', -⟩ := Option.map_eq_some'.1 hs
  exact ⟨v', hv', sum_addVoteForHf hv'⟩

/-- A vote can be removed exactly when its counter is not zero. -/
theorem removeVoteForHf_eq_none_iff {v : HFVotes} {hf : HardFork} :
    v.removeVoteForHf hf = none ↔ v.votes.getD (hf.toU8 - 1) 0 = 0 := by
  rw [← Option.map_eq_none', removeVoteForHf_spec, Option.map_eq_none', checkedSub_eq_none]
  omega

/-- Adding a vote for `vote` raises its counter and leaves the others. -/
theorem getD_addVoteForHf {v v' : HFVotes} {vote : HardFork} (h : v.addVoteForHf vote = some v')
    (hf : HardFork) :
    v'.votes.getD (hf.toU8 - 1) 0 = v.votes.getD (hf.toU8 - 1) 0 + if hf = vote then 1 else 0 := by
  have hs := addVotesForHf_spec v vote 1
  rw [show v.addVotesForHf vote 1 = some v' from h, Option.map_some'] at hs
  obtain ⟨c, hc, hv'⟩ := Option.map_eq_some'.1 hs.symm
  obtain ⟨-, rfl⟩ := checkedAdd_eq_some.1 hc
  have hidx : hf.toU8 - 1 = vote.toU8 - 1 ↔ hf = vote := by
    rw [← HardFork.toU8_injective.eq_iff]
    have := hf.toU8_pos
    have := vote.toU8_pos
    omega
  rw [← hv', List.getD_eq_getElem?_getD, List.getElem?_set]
  by_cases heq : hf = vote
  · subst heq
    simp [List.getD_eq_getElem?_getD, v.index_lt hf]
  · simp [heq, hidx, List.getD_eq_getElem?_getD, Ne.symm (mt hidx.1 heq)]

/-- Every vote count is in range while the counters sum below `2^64`. -/
theorem votesForHf_isSome_of_sum_lt {v : HFVotes} (h : v.votes.sum < wordSize) (hf : HardFork) :
    (v.votesForHf hf).isSome := by
  have hle := (List.drop_sublist (hf.toU8 - 1) v.votes).sum_le_sum fun _ _ => Nat.zero_le _
  rw [votesForHf, checkedSum_of_lt (by omega)]
  rfl

/-- A completed fetch tallies one vote for each block the store returned. -/
theorem foldlM_addVoteForHf_sum (L : List BlockHFInfo) : ∀ {v v' : HFVotes},
    L.foldlM (fun (votes : HFVotes) (hfInfo : BlockHFInfo) => votes.addVoteForHf hfInfo.vote) v =
      some v' →
    v'.votes.sum = v.votes.sum + L.length := by
  induction L with
  | nil => intro v v' h; cases h; rfl
  | cons i L ih =>
    intro v v' h
    simp only [List.foldlM_cons, Option.bind_eq_bind, Option.bind_eq_some] at h
    obtain ⟨v₁, h₁, h₂⟩ := h
    rw [ih h₂, sum_addVoteForHf h₁, List.length_cons]
    omega

end HFVotes

namespace HardForkState

/-! ## Section 2: The votes of the window, over every run -/

/-- A store whose every answer to a range request for versions and votes has one entry
    per height of the range; the entries, and its answers to point requests, are
    arbitrary. -/
def RangeComplete (database : Database) : Prop :=
  ∀ start stop infos,
    database.call (.blockHfInfoInRange start stop) = .ok (.blockHfInfoInRange infos) →
    infos.length = stop - start

theorem rangeComplete_chain (chain : ChainData) : RangeComplete chain.database := by
  intro start stop infos h
  rw [ChainData.call_blockHfInfoInRange, Except.ok.injEq,
    DatabaseResponse.blockHfInfoInRange.injEq] at h
  rw [← h, List.length_map, List.length_range']

/-- The shape every state keeps over a run: the counters hold one vote for each of the
    last `min(last_height + 1, window)` blocks, and the next fork is the successor of
    the current one. -/
structure WellFormed (s : HardForkState) : Prop where
  sum_votes : s.votes.votes.sum = min (s.lastHeight + 1) s.config.window
  nextHardfork_eq : s.nextHardfork = s.currentHardfork.nextFork

/-- The loop never lowers the current fork. -/
theorem checkSetNewHf_le {s s' : HardForkState} (h : s.checkSetNewHf = some s')
    (hn : s.nextHardfork = s.currentHardfork.nextFork) : s.currentHardfork ≤ s'.currentHardfork :=
  checkSetNewHf_induction (fun s s' => s.nextHardfork = s.currentHardfork.nextFork →
      s.currentHardfork ≤ s'.currentHardfork) (fun _ _ _ => le_rfl)
    (fun _ _ _ hsome _ ih hn =>
      ((HardFork.lt_of_nextFork (hn.symm.trans hsome)).2 le_rfl).le.trans (ih rfl)) s s' h hn

/-- A completed fetch of a range tallies one vote for each block the store returned. -/
theorem getVotesInRange_sum {database : Database} {start stop : Nat} {votes : HFVotes}
    (h : getVotesInRange database start stop = some (.ok votes)) :
    ∃ infos, database.call (.blockHfInfoInRange start stop) = .ok (.blockHfInfoInRange infos) ∧
      votes.votes.sum = infos.length := by
  unfold getVotesInRange at h
  split at h <;> try cases h
  rename_i infos hcall
  obtain ⟨v, hv, hok⟩ := Option.map_eq_some'.1 h
  cases hok
  refine ⟨infos, Database.call_of_oneshot hcall, ?_⟩
  rw [HFVotes.foldlM_addVoteForHf_sum infos hv]
  simp [HFVotes.default]

/-- Each completed pass of the eviction loop takes one vote off, whatever block the
    store named. -/
theorem removeVotes_sum {database : Database} {height : Nat} :
    ∀ {votes votes' : HFVotes} {offsets : List Nat},
      removeVotes database height votes offsets = some (.ok (), votes') →
      votes'.votes.sum + offsets.length = votes.votes.sum := by
  intro votes votes' offsets h
  induction offsets generalizing votes with
  | nil => cases h; rfl
  | cons offset offsets ih =>
    unfold removeVotes at h
    split at h <;> try cases h
    split at h <;> try cases h
    split at h <;> try cases h
    rename_i votes₁ hrem
    rw [List.length_cons, ← Nat.add_assoc, ih h, HFVotes.sum_removeVoteForHf hrem]

/-- A completed `new_block` counted the new vote, ran its eviction loop over the offsets
    from `window` up to the count, and ran the fork loop from there. -/
theorem newBlock_ok_counts {s s' : HardForkState} {vote : HardFork} {height : Nat}
    {database : Database} (h : s.newBlock vote height database = some (.ok (), s')) :
    height = s.lastHeight + 1 ∧ ∃ votes₁ total votes₂, s.votes.addVoteForHf vote = some votes₁ ∧
      votes₁.totalVotes = some total ∧
      removeVotes database height votes₁ (List.range' s.config.window (total - s.config.window)) =
        some (.ok (), votes₂) ∧
      ({ s with lastHeight := s.lastHeight + 1, votes := votes₂ } : HardForkState).checkSetNewHf =
        some s' := by
  unfold newBlock at h
  split_ifs at h with hh
  split at h <;> try cases h
  rename_i votes₁ hadd
  split at h <;> try cases h
  rename_i total htotal
  split at h <;> try cases h
  rename_i votes₂ hrem
  split_ifs at h
  obtain ⟨s'', hs'', hok⟩ := Option.map_eq_some'.1 h
  cases hok
  exact ⟨by omega, votes₁, total, votes₂, hadd, htotal, hrem, hs''⟩

/-- A completed `new_block` keeps a state well formed, whatever the vote and whatever the
    store answered; it keeps the configuration and never lowers the current fork. -/
theorem WellFormed.newBlock {s s' : HardForkState} {vote : HardFork} {height : Nat}
    {database : Database} (hs : s.WellFormed)
    (h : s.newBlock vote height database = some (.ok (), s')) :
    s'.WellFormed ∧ s'.config = s.config ∧ s.currentHardfork ≤ s'.currentHardfork := by
  obtain ⟨-, votes₁, total, votes₂, hadd, htotal, hrem, hloop⟩ := newBlock_ok_counts h
  obtain ⟨hlast, hcfg, hvotes⟩ := checkSetNewHf_frame hloop
  have h₁ := HFVotes.sum_addVoteForHf hadd
  have h₂ := removeVotes_sum hrem
  have ht := (checkedSum_eq_some.1 htotal).2
  have hsum := hs.sum_votes
  have hle := checkSetNewHf_le hloop hs.nextHardfork_eq
  rw [List.length_range'] at h₂
  refine ⟨⟨?_, checkSetNewHf_nextFork hloop hs.nextHardfork_eq⟩, hcfg, hle⟩
  rw [hvotes, hlast, hcfg]
  dsimp only
  omega

/-- A state built over a store that answers the range request completely is well
    formed. -/
theorem WellFormed.initFromChainHeight {config : HardForkConfig} {chainHeight : Nat}
    {database : Database} (hdb : RangeComplete database) {s : HardForkState}
    (h : initFromChainHeight config chainHeight database = some (.ok s)) :
    s.WellFormed ∧ s.config = config := by
  unfold HardForkState.initFromChainHeight at h
  split at h <;> try cases h
  rename_i votes hvotes
  split_ifs at h
  split at h <;> try cases h
  split at h <;> try cases h
  rename_i lastHeight hsub
  obtain ⟨h1, rfl⟩ := checkedSub_eq_some.1 hsub
  split at h <;> try cases h
  obtain ⟨s'', hloop, hok⟩ := Option.map_eq_some'.1 h
  cases hok
  obtain ⟨infos, hcall, hsum⟩ := getVotesInRange_sum hvotes
  obtain ⟨hlast, hcfg, hv⟩ := checkSetNewHf_frame hloop
  refine ⟨⟨?_, checkSetNewHf_nextFork hloop rfl⟩, hcfg⟩
  rw [hv, hlast, hcfg, hsum, hdb _ _ _ hcall]
  dsimp only
  omega

theorem Reaches.wellFormed {s₀ s : HardForkState} (hrun : Reaches s₀ s) (h₀ : s₀.WellFormed) :
    s.WellFormed ∧ s.config = s₀.config ∧ s₀.currentHardfork ≤ s.currentHardfork := by
  induction hrun with
  | refl => exact ⟨h₀, rfl, le_rfl⟩
  | newBlock _ hstep ih =>
    obtain ⟨ht, hcfg, hle⟩ := ih
    obtain ⟨ht', hcfg', hle'⟩ := ht.newBlock hstep
    exact ⟨ht', hcfg'.trans hcfg, hle.trans hle'⟩

/-- Over a store that answers the range request completely, the state
    `init_from_chain_height` builds and every state that in-order `new_block` calls, each
    completing, lead to from it, whatever the votes and whatever any store answered
    after: the counters hold exactly `min(last_height + 1, window)` votes, the next fork
    is the successor of the current one, the configuration is the one given, and the
    current fork never decreases from there on. -/
theorem sum_votes_of_reaches {config : HardForkConfig} {chainHeight : Nat} {database : Database}
    (hdb : RangeComplete database) {s₀ s : HardForkState}
    (hinit : initFromChainHeight config chainHeight database = some (.ok s₀))
    (hrun : Reaches s₀ s) :
    s.votes.votes.sum = min (s.lastHeight + 1) config.window ∧
      s.nextHardfork = s.currentHardfork.nextFork ∧ s.config = config ∧
      ∀ t, Reaches s t → s.currentHardfork ≤ t.currentHardfork := by
  obtain ⟨h₀, hcfg₀⟩ := WellFormed.initFromChainHeight hdb hinit
  obtain ⟨hs, hcfg, -⟩ := hrun.wellFormed h₀
  have hcfg' := hcfg.trans hcfg₀
  refine ⟨hcfg' ▸ hs.sum_votes, hs.nextHardfork_eq, hcfg', fun t ht => (ht.wellFormed hs).2.2⟩

/-- `sum_votes_of_reaches` one block past a full window of `main_net`: block `10081` of a
    chain of `V1` blocks evicts block `1`, and the counters still hold `10080` votes. -/
theorem sum_votes_of_reaches_fullWindow :
    RangeComplete genesisChain.database ∧
      ∃ s₀ s₁, initFromChainHeight .mainNet 10081 genesisChain.database = some (.ok s₀) ∧
        s₀.newBlock (genesisChain.hfInfo 10081).vote 10081 genesisChain.database =
          some (.ok (), s₁) ∧
        (s₁.votes.votes.sum = min (s₁.lastHeight + 1) HardForkConfig.mainNet.window ∧
          s₁.nextHardfork = s₁.currentHardfork.nextFork ∧ s₁.config = .mainNet ∧
          ∀ t, Reaches s₁ t → s₁.currentHardfork ≤ t.currentHardfork) ∧
        s₁.votes.votes.sum = 10080 := by
  obtain ⟨s₀, s₁, hinit, -, hstep, -, hl₁⟩ := newBlock_scheduled_step
    (show HardForkConfig.mainNet.network = .mainnet from rfl) genesisChain (show 1 ≤ 10081 by omega)
    (by rw [wordSize_eq]; omega) (HardFork.V1_le _) (by decide)
  have h := sum_votes_of_reaches (rangeComplete_chain _) hinit (.newBlock (.refl s₀) hstep)
  refine ⟨rangeComplete_chain _, s₀, s₁, hinit, hstep, h, ?_⟩
  rw [h.1, hl₁]
  rfl

/-! ## Section 3: When `new_block` panics -/

/-- `new_block` with any height but the next one panics at its `assert_eq!`. -/
theorem newBlock_eq_none_of_ne {s : HardForkState} {vote : HardFork} {height : Nat}
    {database : Database} (h : s.lastHeight + 1 ≠ height) : s.newBlock vote height database = none :=
  if_pos h

/-- On a well-formed state whose counters leave room for one more vote below `2^64`,
    `new_block` with the next height counts the new vote without overflow, runs its
    eviction loop over the one offset `window` once the window is full and over none
    before, and passes its `debug_assert_eq!` whenever the loop completes. -/
theorem WellFormed.newBlock_eq {s : HardForkState} (hs : s.WellFormed)
    (hw : min (s.lastHeight + 1) s.config.window + 1 < wordSize) (vote : HardFork)
    (database : Database) :
    ∃ votes₁, s.votes.addVoteForHf vote = some votes₁ ∧ votes₁.votes.sum = s.votes.votes.sum + 1 ∧
      s.newBlock vote (s.lastHeight + 1) database =
        match removeVotes database (s.lastHeight + 1) votes₁
            (if s.config.window ≤ s.lastHeight + 1 then [s.config.window] else []) with
        | none => none
        | some (.error e, votes) => some (.error e, { s with lastHeight := s.lastHeight + 1, votes })
        | some (.ok (), votes) =>
          ({ s with lastHeight := s.lastHeight + 1, votes } : HardForkState).checkSetNewHf.map
            fun s' => (.ok (), s') := by
  have hsum := hs.sum_votes
  obtain ⟨votes₁, hadd, h₁⟩ := HFVotes.addVoteForHf_of_sum_lt s.votes vote (by omega)
  have htotal : votes₁.totalVotes = some votes₁.votes.sum := checkedSum_of_lt (by omega)
  have hoffsets : List.range' s.config.window (votes₁.votes.sum - s.config.window) =
      if s.config.window ≤ s.lastHeight + 1 then [s.config.window] else [] := by
    split_ifs with hle
    · rw [show votes₁.votes.sum - s.config.window = 1 by omega, List.range'_one]
    · rw [show votes₁.votes.sum - s.config.window = 0 by omega, List.range'_zero]
  refine ⟨votes₁, hadd, h₁, ?_⟩
  simp only [HardForkState.newBlock, ne_eq, not_true_eq_false, if_false, hadd, htotal, hoffsets]
  match hrem : removeVotes database (s.lastHeight + 1) votes₁
      (if s.config.window ≤ s.lastHeight + 1 then [s.config.window] else []) with
  | none => rfl
  | some (.error e, votes₂) => rfl
  | some (.ok (), votes₂) =>
    have h₂ := removeVotes_sum hrem
    dsimp only
    rw [if_neg]
    rintro ⟨hlt, hne⟩
    rw [if_pos hlt.le, List.length_singleton] at h₂
    exact hne (checkedSum_eq_some.2 ⟨by omega, by omega⟩)

/-- The eviction loop over one offset panics exactly when the store answers the request
    for that block with something that is not a `BlockHFInfo`, or with a vote whose
    counter is zero. -/
theorem removeVotes_singleton_eq_none_iff {database : Database} {height offset : Nat}
    {votes : HFVotes} (h : offset ≤ height) :
    removeVotes database height votes [offset] = none ↔
      ∃ r, database.oneshot (.blockHFInfo (height - offset)) = .ok r ∧
        ∀ hfInfo, r = .blockHFInfo hfInfo → votes.removeVoteForHf hfInfo.vote = none := by
  simp only [removeVotes, checkedSub_of_le h]
  cases database.oneshot (.blockHFInfo (height - offset)) with
  | error e => simp
  | ok r =>
    cases r with
    | blockHFInfo hfInfo => cases hv : votes.removeVoteForHf hfInfo.vote <;> simp [hv]
    | _ => simp

/-- On mainnet, on a well-formed state whose window fits below `2^64 - 1`, `new_block`
    with the next height panics exactly when its eviction loop does. -/
theorem WellFormed.newBlock_none_iff_removeVotes {s : HardForkState} (hs : s.WellFormed)
    (hnet : s.config.network = .mainnet) (hw : s.config.window + 1 < wordSize)
    (vote : HardFork) (database : Database) :
    ∃ votes₁, s.votes.addVoteForHf vote = some votes₁ ∧
      (s.newBlock vote (s.lastHeight + 1) database = none ↔
        removeVotes database (s.lastHeight + 1) votes₁
          (if s.config.window ≤ s.lastHeight + 1 then [s.config.window] else []) = none) := by
  obtain ⟨votes₁, hadd, h₁, heq⟩ := hs.newBlock_eq (by omega) vote database
  have hsum := hs.sum_votes
  refine ⟨votes₁, hadd, ?_⟩
  rw [heq]
  match hrem : removeVotes database (s.lastHeight + 1) votes₁
      (if s.config.window ≤ s.lastHeight + 1 then [s.config.window] else []) with
  | none => simp
  | some (.error e, votes₂) => simp
  | some (.ok (), votes₂) =>
    have h₂ := removeVotes_sum hrem
    have hloop := checkSetNewHf_ne_none (s := { s with lastHeight := s.lastHeight + 1, votes := votes₂ })
      hnet (HFVotes.votesForHf_isSome_of_sum_lt (v := votes₂) (by omega))
    simpa using hloop

/-- On mainnet, over a store that answers the range request completely, on the state
    `init_from_chain_height` builds and on every state that completed `new_block` calls
    lead to from it, with a window below `2^64 - 1`: `new_block` with the next height
    panics exactly when the window is full and the store answers the request for the
    block leaving it with something that is not a `BlockHFInfo`, or with a vote other
    than the new one that no counted block cast. Its `assert_eq!`, its overflow checks,
    its `debug_assert_eq!` and the loop of `check_set_new_hf` never panic there. -/
theorem newBlock_eq_none_iff {config : HardForkConfig} (hnet : config.network = .mainnet)
    (hw : config.window + 1 < wordSize) {chainHeight : Nat} {database₀ : Database}
    (hdb : RangeComplete database₀) {s₀ s : HardForkState}
    (hinit : initFromChainHeight config chainHeight database₀ = some (.ok s₀))
    (hrun : Reaches s₀ s) (vote : HardFork) (database : Database) :
    s.newBlock vote (s.lastHeight + 1) database = none ↔
      config.window ≤ s.lastHeight + 1 ∧
        ∃ r, database.oneshot (.blockHFInfo (s.lastHeight + 1 - config.window)) = .ok r ∧
          ∀ hfInfo, r = .blockHFInfo hfInfo →
            hfInfo.vote ≠ vote ∧ s.votes.votes.getD (hfInfo.vote.toU8 - 1) 0 = 0 := by
  obtain ⟨h₀, hcfg₀⟩ := WellFormed.initFromChainHeight hdb hinit
  obtain ⟨hs, hcfg, -⟩ := hrun.wellFormed h₀
  obtain rfl := hcfg.trans hcfg₀
  obtain ⟨votes₁, hadd, hiff⟩ := hs.newBlock_none_iff_removeVotes hnet hw vote database
  have hcount (hf : HardFork) :
      votes₁.removeVoteForHf hf = none ↔ hf ≠ vote ∧ s.votes.votes.getD (hf.toU8 - 1) 0 = 0 := by
    rw [HFVotes.removeVoteForHf_eq_none_iff, HFVotes.getD_addVoteForHf hadd]
    by_cases h : hf = vote <;> simp [h]
  rw [hiff]
  split_ifs with hle
  · simp only [removeVotes_singleton_eq_none_iff hle, hcount, hle, true_and]
  · simp [removeVotes, hle]

/-- `newBlock_eq_none_iff` one block past a full window of `main_net`, against a store
    that answers every request with a chain height: the eviction gets a response of the
    wrong variant, and `new_block` reaches its `panic!`. -/
theorem newBlock_eq_none_iff_wrongResponse :
    ∃ s₀ s₁, initFromChainHeight .mainNet 10081 genesisChain.database = some (.ok s₀) ∧
      s₀.newBlock (genesisChain.hfInfo 10081).vote 10081 genesisChain.database = some (.ok (), s₁) ∧
      HardForkConfig.mainNet.network = .mainnet ∧ HardForkConfig.mainNet.window + 1 < wordSize ∧
      RangeComplete genesisChain.database ∧
      (s₁.newBlock .V1 (s₁.lastHeight + 1) (.constant (.chainHeight 0)) = none ↔
        HardForkConfig.mainNet.window ≤ s₁.lastHeight + 1 ∧
          ∃ r, (Database.constant (.chainHeight 0)).oneshot
              (.blockHFInfo (s₁.lastHeight + 1 - HardForkConfig.mainNet.window)) = .ok r ∧
            ∀ hfInfo, r = .blockHFInfo hfInfo →
              hfInfo.vote ≠ .V1 ∧ s₁.votes.votes.getD (hfInfo.vote.toU8 - 1) 0 = 0) ∧
      s₁.newBlock .V1 (s₁.lastHeight + 1) (.constant (.chainHeight 0)) = none := by
  obtain ⟨s₀, s₁, hinit, -, hstep, -, hl₁⟩ := newBlock_scheduled_step
    (show HardForkConfig.mainNet.network = .mainnet from rfl) genesisChain (show 1 ≤ 10081 by omega)
    (by rw [wordSize_eq]; omega) (HardFork.V1_le _) (by decide)
  have hw : HardForkConfig.mainNet.window + 1 < wordSize := by rw [wordSize_eq]; decide
  have hiff := newBlock_eq_none_iff rfl hw (rangeComplete_chain _) hinit (.newBlock (.refl s₀) hstep)
    .V1 (.constant (.chainHeight 0))
  refine ⟨s₀, s₁, hinit, hstep, rfl, hw, rangeComplete_chain _, hiff,
    hiff.2 ⟨?_, .chainHeight 0, rfl, fun _ h => ?_⟩⟩
  · rw [hl₁]
    decide
  · cases h

/-- The eviction loop over one offset fails exactly when the store fails at the request
    for that block, and then leaves the counters as they were. -/
theorem removeVotes_singleton_eq_error_iff {database : Database} {height offset : Nat}
    {votes votes' : HFVotes} {e : ConsensusError} (h : offset ≤ height) :
    removeVotes database height votes [offset] = some (.error e, votes') ↔
      database.oneshot (.blockHFInfo (height - offset)) = .error e ∧ votes = votes' := by
  simp only [removeVotes, checkedSub_of_le h]
  cases database.oneshot (.blockHFInfo (height - offset)) with
  | error e' => simp
  | ok r =>
    cases r with
    | blockHFInfo hfInfo => cases hv : votes.removeVoteForHf hfInfo.vote <;> simp [hv]
    | _ => simp

/-- On a well-formed state whose counters leave room for one more vote, a failed
    `new_block` was given the next height and failed at its only request, for the block
    leaving the full window; it leaves the height advanced and the new vote counted,
    with nothing evicted. -/
theorem WellFormed.newBlock_error_at_eviction {s s₁ : HardForkState} (hs : s.WellFormed)
    (hw : min (s.lastHeight + 1) s.config.window + 1 < wordSize) {vote : HardFork}
    {height : Nat} {database : Database} {e : ConsensusError}
    (h : s.newBlock vote height database = some (.error e, s₁)) :
    height = s.lastHeight + 1 ∧ s.config.window ≤ s.lastHeight + 1 ∧
      database.oneshot (.blockHFInfo (s.lastHeight + 1 - s.config.window)) = .error e ∧
      ∃ votes₁, s.votes.addVoteForHf vote = some votes₁ ∧
        s₁ = { s with lastHeight := s.lastHeight + 1, votes := votes₁ } := by
  have hh : height = s.lastHeight + 1 := by
    by_contra hne
    rw [newBlock_eq_none_of_ne (Ne.symm hne)] at h
    cases h
  subst hh
  obtain ⟨votes₁, hadd, -, heq⟩ := hs.newBlock_eq hw vote database
  rw [heq] at h
  split_ifs at h with hle <;> split at h <;> try cases h
  · rename_i hrem
    obtain ⟨hreq, rfl⟩ := (removeVotes_singleton_eq_error_iff hle).1 hrem
    exact ⟨rfl, hle, hreq, votes₁, hadd, rfl⟩
  · obtain ⟨_, -, hok⟩ := Option.map_eq_some'.1 h
    cases hok
  · rename_i hrem
    cases hrem
  · obtain ⟨_, -, hok⟩ := Option.map_eq_some'.1 h
    cases hok

/-! ## Section 4: A failed `new_block` on a fixed chain -/

/-- One block into a window of one block on a chain of `V1` blocks voting `V1`. -/
def fullWindowState : HardForkState :=
  ⟨.V1, some .V2, ⟨.mainnet, 1⟩, ⟨HFVotes.tally [.V1], HFVotes.length_tally _⟩, 5⟩

theorem newBlock_fullWindowState_unavailable :
    fullWindowState.newBlock .V1 6 .unavailable =
      some (.error .database, { fullWindowState with
        lastHeight := 6, votes := ⟨HFVotes.tally [.V1, .V1], HFVotes.length_tally _⟩ }) :=
  rfl

/-- When the store is down as the block leaving a full window is fetched, `new_block`
    fails with the height advanced and the new vote counted: the state it leaves is not
    the state it started from. So it is with a window of one block, and with `main_net`
    on the state built at height `10080` over a chain of `V1` blocks. -/
theorem newBlock_error_keeps_new_vote :
    (∃ s', fullWindowState.newBlock .V1 6 .unavailable = some (.error .database, s') ∧
      s'.lastHeight = 6 ∧ fullWindowState.lastHeight = 5 ∧
      s'.votes.votesForHf .V1 = some 2 ∧ fullWindowState.votes.votesForHf .V1 = some 1) ∧
    ∃ S s', initFromChainHeight .mainNet 10080 genesisChain.database = some (.ok S) ∧
      S.newBlock .V1 10080 .unavailable = some (.error .database, s') ∧
      s'.lastHeight = S.lastHeight + 1 ∧ s'.votes.votes.sum = S.votes.votes.sum + 1 := by
  refine ⟨⟨_, newBlock_fullWindowState_unavailable, rfl, rfl, rfl, rfl⟩, ?_⟩
  obtain ⟨S, hinit, -, hlast⟩ := initFromChainHeight_genesisChain (show 1 ≤ 10080 by omega)
    (by omega)
  obtain ⟨hs, hcfg⟩ := WellFormed.initFromChainHeight (rangeComplete_chain _) hinit
  obtain ⟨votes₁, -, hsum, heq⟩ := hs.newBlock_eq
    (by rw [hlast, hcfg, wordSize_eq]; decide) .V1 .unavailable
  refine ⟨S, { S with lastHeight := S.lastHeight + 1, votes := votes₁ }, hinit, ?_, rfl, hsum⟩
  rw [show 10080 = S.lastHeight + 1 by omega, heq]
  simp [hcfg, hlast, removeVotes, checkedSub, Database.oneshot, Database.unavailable,
    Except.bind, HardForkConfig.mainNet, defaultWindowSize]

/-- On a fixed chain, the eviction loop over the `n` offsets from `offset` removes the
    votes of the blocks from `height - offset` down: counters holding those votes and `R`
    are left holding `R`. -/
theorem removeVotes_chain_range (chain : ChainData) {height : Nat} (n : Nat) :
    ∀ {offset : Nat} {v : HFVotes} {R : List HardFork}, offset + n ≤ height + 1 →
      v.votes = HFVotes.tally
        ((List.range' (height + 1 - offset - n) n).map (fun k => (chain.hfInfo k).vote) ++ R) →
      removeVotes chain.database height v (List.range' offset n) =
        some (.ok (), ⟨HFVotes.tally R, HFVotes.length_tally R⟩) := by
  induction n with
  | zero =>
    intro offset v R _ hv
    rw [List.range'_zero, removeVotes, HFVotes.eq_mk_tally (v := v) (M := R) (by simpa using hv)]
  | succ n ih =>
    intro offset v R hle hv
    have hsplit : List.range' (height + 1 - offset - (n + 1)) (n + 1) =
        List.range' (height - offset - n) n ++ [height - offset] := by
      rw [List.range'_concat, Nat.one_mul, show height + 1 - offset - (n + 1) = height - offset - n by omega,
        Nat.sub_add_cancel (by omega)]
    rw [hsplit, List.map_append, List.map_singleton, List.append_assoc, List.singleton_append] at hv
    have hmem := List.mem_append_right
      ((List.range' (height - offset - n) n).map fun k => (chain.hfInfo k).vote)
      (List.mem_cons_self (chain.hfInfo (height - offset)).vote R)
    obtain ⟨v', hrem, hv'⟩ := HFVotes.removeVoteForHf_tally hv hmem
    have hperm := ((List.perm_cons_erase hmem).symm.trans List.perm_middle).cons_inv
    rw [List.range'_succ, removeVotes, checkedSub_of_le (by omega)]
    simp only [ChainData.oneshot, ChainData.call_blockHFInfo, hrem]
    refine ih (by omega) ?_
    rw [hv', HFVotes.tally_perm hperm, show height + 1 - (offset + 1) - n = height - offset - n by omega]

/-- On a fixed chain, after a failed `new_block` of block `height` on a state that held
    the votes of the full window below it, `new_block` of block `height + 1` evicts the
    two blocks then out of the window, and hands the loop the votes of the window one
    block higher. -/
theorem newBlock_after_error_chain (chain : ChainData) {s : HardForkState} {height : Nat}
    (hv : s.votes.votes =
      HFVotes.tally ((chain.hfInfo height).vote :: windowVotes chain s.config.window height))
    (hh : s.lastHeight = height) (hle : s.config.window ≤ height) (hw : height + 2 < wordSize) :
    s.newBlock (chain.hfInfo (height + 1)).vote (height + 1) chain.database =
      ({ s with
          lastHeight := height + 1
          votes := ⟨HFVotes.tally (windowVotes chain s.config.window (height + 2)),
            HFVotes.length_tally _⟩ } : HardForkState).checkSetNewHf.map fun s' => (.ok (), s') := by
  subst hh
  have hlen := length_windowVotes chain s.config.window s.lastHeight
  obtain ⟨v₁, hadd, hv₁⟩ := HFVotes.addVoteForHf_tally hv (chain.hfInfo (s.lastHeight + 1)).vote
    (by simp only [List.length_cons]; omega)
  have htotal := HFVotes.totalVotes_tally hv₁ (by simp only [List.length_cons]; omega)
  have hperm : ((chain.hfInfo (s.lastHeight + 1)).vote :: (chain.hfInfo s.lastHeight).vote ::
      windowVotes chain s.config.window s.lastHeight).Perm
      ((List.range' (s.lastHeight + 1 + 1 - s.config.window - 2) 2).map (fun k => (chain.hfInfo k).vote) ++
        windowVotes chain s.config.window (s.lastHeight + 2)) := by
    have hstep₁ := windowVotes_perm_of_le chain hle
    have hstep₂ := windowVotes_perm_of_le chain (Nat.le_succ_of_le hle)
    rw [show s.lastHeight + 1 + 1 - s.config.window - 2 = s.lastHeight - s.config.window by omega,
      show s.lastHeight + 1 - s.config.window = s.lastHeight - s.config.window + 1 by omega] at *
    exact (hstep₁.cons _).trans ((List.Perm.swap _ _ _).trans (hstep₂.cons _))
  have hrem := @removeVotes_chain_range chain (s.lastHeight + 1) 2 s.config.window _ _ (by omega)
    (hv₁.trans (HFVotes.tally_perm hperm))
  rw [newBlock, if_neg (by omega), hadd]
  simp only [htotal, List.length_cons, hlen, show min s.lastHeight s.config.window + 1 + 1 - s.config.window = 2 by omega,
    hrem, totalVotes_windowVotes chain _ hw]
  rw [if_neg (by rw [ne_eq, Option.some.injEq]; omega)]

/-- On mainnet the loop ends in the same state from two states that differ at most in
    their current fork, when neither is ahead of the schedule and each has the successor
    of its current fork as its next one. -/
theorem checkSetNewHf_congr {t u t' u' : HardForkState} (ht : t.checkSetNewHf = some t')
    (hu : u.checkSetNewHf = some u') (hnet : t.config.network = .mainnet)
    (hcfg : u.config = t.config) (hlast : u.lastHeight = t.lastHeight) (hvotes : u.votes = t.votes)
    (htn : t.nextHardfork = t.currentHardfork.nextFork)
    (hun : u.nextHardfork = u.currentHardfork.nextFork)
    (htle : t.currentHardfork ≤ HardFork.scheduledFork (t.lastHeight + 1))
    (hule : u.currentHardfork ≤ HardFork.scheduledFork (u.lastHeight + 1)) : t' = u' := by
  have hct := checkSetNewHf_current ht hnet htn htle
  have hcu := checkSetNewHf_current hu (hcfg ▸ hnet) hun hule
  have htn' := checkSetNewHf_nextFork ht htn
  have hun' := checkSetNewHf_nextFork hu hun
  obtain ⟨htl, htc, htv⟩ := checkSetNewHf_frame ht
  obtain ⟨hul, huc, huv⟩ := checkSetNewHf_frame hu
  obtain ⟨c, n, cfg, v, l⟩ := t'
  obtain ⟨c', n', cfg', v', l'⟩ := u'
  dsimp only at hct hcu htn' hun' htl htc htv hul huc huv
  subst hct hcu htn' hun' htl htc htv hul huc huv
  rw [hcfg, hlast, hvotes]

/-- On mainnet, on a fixed chain none of whose blocks carries a version ahead of the
    schedule: when `new_block` of block `h` on the state `init_from_chain_height(h)`
    builds fails, whatever store it was given, feeding block `h` again to the state it
    leaves panics at the `assert_eq!`, and feeding block `h + 1` with the chain's store
    completes and gives exactly the state `init_from_chain_height(h + 2)` builds. -/
theorem newBlock_after_failed_newBlock {config : HardForkConfig} (hnet : config.network = .mainnet)
    (chain : ChainData) (hahead : ∀ k, (chain.hfInfo k).version ≤ HardFork.scheduledFork (k + 1))
    {h : Nat} (h1 : 1 ≤ h) (hw : h + 2 < wordSize) {S s₁ : HardForkState} {database : Database}
    {e : ConsensusError} (hS : initFromChainHeight config h chain.database = some (.ok S))
    (hfail : S.newBlock (chain.hfInfo h).vote h database = some (.error e, s₁)) :
    (∀ vote database', s₁.newBlock vote h database' = none) ∧
      ∃ S', initFromChainHeight config (h + 2) chain.database = some (.ok S') ∧
        s₁.newBlock (chain.hfInfo (h + 1)).vote (h + 1) chain.database = some (.ok (), S') := by
  obtain ⟨hs, hcfgS⟩ := WellFormed.initFromChainHeight (rangeComplete_chain chain) hS
  obtain ⟨S₀, hloop, hinit⟩ := initFromChainHeight_chain_ok hnet chain h1 (by omega)
  cases hS.symm.trans hinit
  obtain ⟨hlast, -, hvotes⟩ := checkSetNewHf_frame hloop
  simp only [chainState] at hlast hvotes
  have hcur := checkSetNewHf_current hloop hnet rfl
    (by simpa only [chainState, Nat.sub_add_cancel h1] using hahead (h - 1))
  simp only [chainState, Nat.sub_add_cancel h1] at hcur
  have hnext := checkSetNewHf_nextFork hloop rfl
  obtain ⟨-, hle, -, votes₁, hadd, rfl⟩ := hs.newBlock_error_at_eviction (by omega) hfail
  obtain ⟨v₁, hadd', hv₁⟩ := HFVotes.addVoteForHf_tally (congrArg HFVotes.votes hvotes)
    (chain.hfInfo h).vote (by rw [length_windowVotes]; omega)
  cases hadd.symm.trans hadd'
  refine ⟨fun vote database' => newBlock_eq_none_of_ne (by dsimp only; omega), ?_⟩
  obtain ⟨S', hloop', hinit'⟩ := initFromChainHeight_chain_ok hnet chain (show 1 ≤ h + 2 by omega) hw
  refine ⟨S', hinit', ?_⟩
  rw [newBlock_after_error_chain chain (by rw [hcfgS, hv₁]) (by dsimp only; omega)
    (by dsimp only; omega) (by omega)]
  obtain ⟨T, hT⟩ := Option.ne_none_iff_exists'.1 (checkSetNewHf_ne_none
    (s := { S with
      lastHeight := h + 1
      votes := ⟨HFVotes.tally (windowVotes chain S.config.window (h + 2)), HFVotes.length_tally _⟩ })
    (hcfgS ▸ hnet) (HFVotes.votesForHf_isSome_of_sum_lt
      (by simp only [HFVotes.sum_tally, length_windowVotes]; omega)))
  rw [hT, checkSetNewHf_congr hT hloop' (hcfgS ▸ hnet) (by simp only [chainState, hcfgS])
    (by simp only [chainState]; omega) (by simp only [chainState, hcfgS]) hnext rfl
    (by dsimp only; rw [hcur]; exact HardFork.scheduledFork_mono (by omega))
    (by simpa only [chainState, Nat.add_sub_cancel] using hahead (h + 1))]
  rfl

/-- `newBlock_after_failed_newBlock` with a window of one block on a chain of `V1`
    blocks: block `1` fails against a store that is down, then block `2` repairs the
    state. -/
theorem newBlock_after_failed_newBlock_genesis :
    (∀ k, (genesisChain.hfInfo k).version ≤ HardFork.scheduledFork (k + 1)) ∧ 1 + 2 < wordSize ∧
      ∃ S s₁, initFromChainHeight ⟨.mainnet, 1⟩ 1 genesisChain.database = some (.ok S) ∧
        S.newBlock (genesisChain.hfInfo 1).vote 1 .unavailable = some (.error .database, s₁) ∧
        (∀ vote database', s₁.newBlock vote 1 database' = none) ∧
        ∃ S', initFromChainHeight ⟨.mainnet, 1⟩ (1 + 2) genesisChain.database = some (.ok S') ∧
          s₁.newBlock (genesisChain.hfInfo (1 + 1)).vote (1 + 1) genesisChain.database =
            some (.ok (), S') := by
  have hahead : ∀ k, (genesisChain.hfInfo k).version ≤ HardFork.scheduledFork (k + 1) :=
    fun _ => HardFork.V1_le _
  have hw : 1 + 2 < wordSize := by simp [wordSize]
  obtain ⟨S, hloop, hS⟩ := initFromChainHeight_chain_ok
    (show (⟨.mainnet, 1⟩ : HardForkConfig).network = .mainnet from rfl) genesisChain le_rfl (by simp [wordSize])
  obtain ⟨hs, hcfg⟩ := WellFormed.initFromChainHeight (rangeComplete_chain _) hS
  have hlast : S.lastHeight = 0 := by simpa [chainState] using (checkSetNewHf_frame hloop).1
  obtain ⟨votes₁, -, -, heq⟩ := hs.newBlock_eq (by simp [hlast, hcfg, wordSize]) .V1 .unavailable
  have hfail : S.newBlock .V1 1 .unavailable =
      some (.error .database, { S with lastHeight := S.lastHeight + 1, votes := votes₁ }) := by
    rw [show (1 : Nat) = S.lastHeight + 1 by omega, heq]
    simp [hcfg, hlast, removeVotes, checkedSub, Database.oneshot, Database.unavailable, Except.bind]
  exact ⟨hahead, hw, S, _, hS, hfail,
    newBlock_after_failed_newBlock rfl genesisChain hahead le_rfl hw hS hfail⟩

/-! ## Section 5: Off mainnet -/

/-- Off mainnet every fork height is a `todo!()`. -/
theorem forkHeight_eq_none_of_ne_mainnet {network : Network} (hnet : network ≠ .mainnet)
    (hf : HardFork) : hf.forkHeight network = none := by
  cases network
  · exact absurd rfl hnet
  all_goals rfl

/-- With no next fork the loop of `check_set_new_hf` stops at once. -/
theorem checkSetNewHf_of_nextHardfork_eq_none {s : HardForkState} (h : s.nextHardfork = none) :
    s.checkSetNewHf = some s := by
  rw [checkSetNewHf]
  split
  · rfl
  · cases h.symm.trans ‹_›

/-- Off mainnet `check_set_new_hf` completes only on a state with no next fork, and leaves
    it as it is: a next fork sends the loop to the `todo!()` fork heights. -/
theorem checkSetNewHf_off_mainnet {s s' : HardForkState} (h : s.checkSetNewHf = some s')
    (hnet : s.config.network ≠ .mainnet) : s.nextHardfork = none ∧ s' = s := by
  have hfh := forkHeight_eq_none_of_ne_mainnet hnet
  rcases checkSetNewHf_cases h with ⟨rfl, hn | ⟨newHf, -, _, hsome, -⟩⟩ | ⟨newHf, -, ⟨_, hsome, -⟩, -⟩
  · exact ⟨hn, rfl⟩
  all_goals cases (hfh newHf).symm.trans hsome

/-- Off mainnet a completed `new_block` started from a state with no next fork, and ends
    in one with the same fork and configuration. -/
theorem newBlock_off_mainnet {s s' : HardForkState} {vote : HardFork} {height : Nat}
    {database : Database} (hnet : s.config.network ≠ .mainnet)
    (h : s.newBlock vote height database = some (.ok (), s')) :
    s'.currentHardfork = s.currentHardfork ∧ s'.nextHardfork = none ∧ s'.config = s.config := by
  obtain ⟨-, votes, hloop⟩ := newBlock_ok h
  obtain ⟨hn, rfl⟩ := checkSetNewHf_off_mainnet hloop hnet
  exact ⟨rfl, hn, rfl⟩

/-- Off mainnet, on any store, the state `init_from_chain_height` returns and every state
    reached from it by completed `new_block` calls is at `V16` with no next fork: below
    `V16` `check_set_new_hf` asks for the next fork's height and panics. -/
theorem currentHardfork_off_mainnet {config : HardForkConfig} (hnet : config.network ≠ .mainnet)
    {chainHeight : Nat} {database : Database} {s t : HardForkState}
    (hinit : initFromChainHeight config chainHeight database = some (.ok s)) (hrun : Reaches s t) :
    t.currentHardfork = .V16 ∧ t.nextHardfork = none ∧ t.config = config := by
  induction hrun with
  | refl =>
    obtain ⟨-, hfInfo, votes, -, hloop⟩ := initFromChainHeight_ok hinit
    obtain ⟨hn, rfl⟩ := checkSetNewHf_off_mainnet hloop hnet
    exact ⟨HardFork.nextFork_eq_none_iff.1 hn, hn, rfl⟩
  | newBlock _ hstep ih =>
    obtain ⟨hcur, -, hcfg⟩ := ih
    obtain ⟨hcur', hn', hcfg'⟩ := newBlock_off_mainnet (hcfg ▸ hnet) hstep
    exact ⟨hcur'.trans hcur, hn', hcfg'.trans hcfg⟩

/-- `currentHardfork_off_mainnet` on a testnet chain of `V16` blocks, one block past the
    state built at height `1`. -/
theorem currentHardfork_off_mainnet_V16 :
    (⟨.testnet, 10080⟩ : HardForkConfig).network ≠ .mainnet ∧
      ∃ s₀ s₁, initFromChainHeight ⟨.testnet, 10080⟩ 1 v16Chain.database = some (.ok s₀) ∧
        s₀.newBlock (v16Chain.hfInfo 1).vote 1 v16Chain.database = some (.ok (), s₁) ∧
        s₁.currentHardfork = .V16 ∧ s₁.nextHardfork = none ∧ s₁.config = ⟨.testnet, 10080⟩ := by
  have hnet : (⟨.testnet, 10080⟩ : HardForkConfig).network ≠ .mainnet := by decide
  have hloop (h : Nat) : (chainState ⟨.testnet, 10080⟩ v16Chain h).checkSetNewHf =
      some (chainState ⟨.testnet, 10080⟩ v16Chain h) :=
    checkSetNewHf_of_nextHardfork_eq_none rfl
  have hinit : initFromChainHeight ⟨.testnet, 10080⟩ 1 v16Chain.database =
      some (.ok (chainState ⟨.testnet, 10080⟩ v16Chain 1)) := by
    rw [initFromChainHeight_chain _ v16Chain le_rfl (by rw [wordSize_eq]; decide), hloop]
    rfl
  have hstep : (chainState ⟨.testnet, 10080⟩ v16Chain 1).newBlock (v16Chain.hfInfo 1).vote 1
      v16Chain.database = some (.ok (), chainState ⟨.testnet, 10080⟩ v16Chain (1 + 1)) := by
    rw [newBlock_of_checkSetNewHf_chainState v16Chain le_rfl (by rw [wordSize_eq]; decide)
      (hloop 1) rfl, hloop]
    rfl
  exact ⟨hnet, _, _, hinit, hstep, currentHardfork_off_mainnet hnet hinit (.newBlock (.refl _) hstep)⟩

/-- Off mainnet, over a chain store, `init_from_chain_height` completes exactly when the
    stored version of the top block is `V16`, and then builds the chain's state. -/
theorem initFromChainHeight_chain_off_mainnet {config : HardForkConfig}
    (hnet : config.network ≠ .mainnet) (chain : ChainData) {chainHeight : Nat}
    (h1 : 1 ≤ chainHeight) (hw : chainHeight < wordSize) :
    initFromChainHeight config chainHeight chain.database =
      if (chain.hfInfo (chainHeight - 1)).version = .V16 then
        some (.ok (chainState config chain chainHeight))
      else none := by
  rw [initFromChainHeight_chain config chain h1 hw]
  split_ifs with hv
  · rw [checkSetNewHf_of_nextHardfork_eq_none (HardFork.nextFork_eq_none_iff.2 hv)]
    rfl
  · cases hloop : (chainState config chain chainHeight).checkSetNewHf with
    | none => rfl
    | some s => exact absurd (HardFork.nextFork_eq_none_iff.1 (checkSetNewHf_off_mainnet hloop hnet).1) hv

theorem initFromChainHeight_chain_off_mainnet_stagenet :
    (⟨.stagenet, 1⟩ : HardForkConfig).network ≠ .mainnet ∧ 1 ≤ 1 ∧ 1 < wordSize ∧
      initFromChainHeight ⟨.stagenet, 1⟩ 1 genesisChain.database =
        if (genesisChain.hfInfo (1 - 1)).version = .V16 then
          some (.ok (chainState ⟨.stagenet, 1⟩ genesisChain 1))
        else none :=
  have hw : 1 < wordSize := by simp [wordSize]
  ⟨by decide, le_rfl, hw, initFromChainHeight_chain_off_mainnet (by decide) genesisChain le_rfl hw⟩

end HardForkState

end Cuprate
