import CuprateConsensus.Weight.Rebuild

/-! # Panics and failures of the block weights cache

    `new_block_added` can end in three ways besides completing: the `assert_eq!` on the
    height, the `expect` after the search for the weight of the block leaving the
    long-term window, and an unexpected response variant. Section 1 shows that with the
    next height, on a sorted window and for every search meeting the `binary_search`
    contract, only the store can make it panic: exactly when it answers the request for
    the block leaving the window with something that is not a `BlockWeights`, or with a
    long-term weight found neither in the window nor as the new block's.

    Section 2 follows a failed `new_block_added` on a fixed chain. The failed call has
    already advanced the tip and inserted the new long-term weight, so the weight of the
    block it was about to evict stays in the list: retrying the block panics, and every
    later block completes but evicts only its own leaving block. The long-term window
    then holds one weight too many for ever, and the short-term deque lacks the failed
    block's weight until it slides out (`cacheAfterFailure`).
-/

namespace Cuprate

namespace BlockWeightsCache

/-! ## Section 1: When `new_block_added` panics -/

/-- On a sorted list, the eviction panics exactly when the long-term window is full and
    the store answers the request for the block leaving it with something that is not a
    `BlockWeights`, or with a long-term weight that is not in the list. -/
theorem removeLongTermWeight_eq_none_iff (bs : BinarySearch) {blockHeight : Nat} {l : List Nat}
    (hs : l.Sorted (· ≤ ·)) (database : Database) :
    removeLongTermWeight bs blockHeight l database = none ↔
      longTermWindow ≤ blockHeight ∧
        ∃ r, database.oneshot (.blockWeights (blockHeight - longTermWindow)) = .ok r ∧
          ∀ weights, r = .blockWeights weights → weights.longTermWeight ∉ l := by
  unfold removeLongTermWeight
  by_cases hle : longTermWindow ≤ blockHeight
  · simp only [checkedSub_of_le hle, hle, true_and]
    cases database.oneshot (.blockWeights (blockHeight - longTermWindow)) with
    | error e => simp
    | ok r =>
      cases r with
      | blockWeights weights =>
        cases hsearch : bs.search l weights.longTermWeight with
        | error i => simp [hsearch, (bs.error_spec l _ i hs hsearch).1]
        | ok i =>
          have hget := bs.ok_spec l _ i hs hsearch
          simp [hsearch, (List.getElem?_eq_some_iff.1 hget).1, List.getElem?_mem hget]
      | _ => simp
  · simp [checkedSub_eq_none.2 (Nat.lt_of_not_le hle), hle]

/-- On a cache whose long-term window is sorted, for every search meeting the
    `binary_search` contract and any weights: `new_block_added` with the next height
    panics exactly when the long-term window is full and the store answers the request
    for the block leaving it with something that is not a `BlockWeights`, or with a
    long-term weight that is neither in the window nor the new block's. The `assert_eq!`
    and the insertion never panic there, and the `expect` fires only on such a store. -/
theorem newBlockAdded_eq_none_iff {c : BlockWeightsCache} (hs : c.longTermWeights.Sorted (· ≤ ·))
    (bs : BinarySearch) (blockWeight longTermWeight : Nat) (database : Database) :
    c.newBlockAdded bs (c.tipHeight + 1) blockWeight longTermWeight database = none ↔
      longTermWindow ≤ c.tipHeight + 1 ∧
        ∃ r, database.oneshot (.blockWeights (c.tipHeight + 1 - longTermWindow)) = .ok r ∧
          ∀ weights, r = .blockWeights weights →
            weights.longTermWeight ∉ longTermWeight :: c.longTermWeights := by
  obtain ⟨hidx, hsorted⟩ := bs.insertIdx_index hs longTermWeight
  have hmem (x : Nat) : x ∈ c.longTermWeights.insertIdx
      (searchIndex (bs.search c.longTermWeights longTermWeight)) longTermWeight ↔
      x ∈ longTermWeight :: c.longTermWeights := by
    rw [List.mem_insertIdx hidx, List.mem_cons]
  have hnone : c.newBlockAdded bs (c.tipHeight + 1) blockWeight longTermWeight database = none ↔
      removeLongTermWeight bs (c.tipHeight + 1) (c.longTermWeights.insertIdx
        (searchIndex (bs.search c.longTermWeights longTermWeight)) longTermWeight) database = none := by
    simp only [newBlockAdded, ne_eq, not_true_eq_false, if_false, not_lt.2 hidx]
    cases removeLongTermWeight bs (c.tipHeight + 1) (c.longTermWeights.insertIdx
      (searchIndex (bs.search c.longTermWeights longTermWeight)) longTermWeight) database with
    | none => simp
    | some r => cases r <;> simp
  rw [hnone, removeLongTermWeight_eq_none_iff bs hsorted]
  simp only [hmem]

/-- `newBlockAdded_eq_none_iff` at the first eviction, against a store that is down, where
    the call fails without a panic, and against a store that answers with the weights of
    a block whose long-term weight is in neither list, where the `expect` fires. -/
theorem newBlockAdded_eq_none_iff_absentWeight :
    [0, 7].Sorted (· ≤ ·) ∧
      ((⟨[0, 5], [0, 7], 99999⟩ : BlockWeightsCache).newBlockAdded .lowerBound (99999 + 1) 3 3
          .unavailable = none ↔
        longTermWindow ≤ 99999 + 1 ∧
          ∃ r, Database.unavailable.oneshot (.blockWeights (99999 + 1 - longTermWindow)) = .ok r ∧
            ∀ weights, r = .blockWeights weights → weights.longTermWeight ∉ [3, 0, 7]) ∧
      ((⟨[0, 5], [0, 7], 99999⟩ : BlockWeightsCache).newBlockAdded .lowerBound (99999 + 1) 3 3
          (.constant (.blockWeights ⟨0, 9⟩)) = none ↔
        longTermWindow ≤ 99999 + 1 ∧
          ∃ r, (Database.constant (.blockWeights ⟨0, 9⟩)).oneshot
              (.blockWeights (99999 + 1 - longTermWindow)) = .ok r ∧
            ∀ weights, r = .blockWeights weights → weights.longTermWeight ∉ [3, 0, 7]) ∧
      (⟨[0, 5], [0, 7], 99999⟩ : BlockWeightsCache).newBlockAdded .lowerBound (99999 + 1) 3 3
          (.constant (.blockWeights ⟨0, 9⟩)) = none := by
  have hs : [0, 7].Sorted (· ≤ ·) := by simp
  have habsent := newBlockAdded_eq_none_iff (c := ⟨[0, 5], [0, 7], 99999⟩) hs .lowerBound 3 3
    (.constant (.blockWeights ⟨0, 9⟩))
  refine ⟨hs, newBlockAdded_eq_none_iff (c := ⟨[0, 5], [0, 7], 99999⟩) hs .lowerBound 3 3 .unavailable,
    habsent, habsent.2 ⟨le_rfl, _, rfl, fun weights h => ?_⟩⟩
  cases h
  decide

/-! ## Section 2: A failed `new_block_added` on a fixed chain -/

/-- A failed `new_block_added` was given the next height, with the long-term window full;
    it advanced the tip and inserted the new long-term weight at the index the search
    returned, and left the short-term weights. -/
theorem newBlockAdded_error_eq {c c₁ : BlockWeightsCache} {bs : BinarySearch}
    {blockHeight blockWeight longTermWeight : Nat} {database : Database} {e : ConsensusError}
    (h : c.newBlockAdded bs blockHeight blockWeight longTermWeight database = some (.error e, c₁)) :
    blockHeight = c.tipHeight + 1 ∧ longTermWindow ≤ blockHeight ∧
      c₁ = { c with
        tipHeight := c.tipHeight + 1
        longTermWeights := c.longTermWeights.insertIdx
          (searchIndex (bs.search c.longTermWeights longTermWeight)) longTermWeight } := by
  unfold newBlockAdded at h
  dsimp only at h
  split_ifs at h with hh hidx
  split at h <;> try cases h
  rename_i hrem
  refine ⟨by omega, ?_, rfl⟩
  unfold removeLongTermWeight at hrem
  split at hrem
  · cases hrem
  · exact (checkedSub_eq_some.1 ‹_›).1

/-- Block `100000` of a chain of blocks of weight `0`, fed to the cache the chain
    determines at `100000` against a store that is down: the call fails at the request for
    block `0`, the first to leave the long-term window. -/
theorem newBlockAdded_genesis_unavailable :
    (chainCache genesisChain 100000).newBlockAdded .lowerBound 100000
        (genesisChain.weights 100000).blockWeight (genesisChain.weights 100000).longTermWeight
        .unavailable = some (.error .database, { chainCache genesisChain 100000 with
          tipHeight := 100000
          longTermWeights := (chainCache genesisChain 100000).longTermWeights.insertIdx
            (searchIndex (BinarySearch.lowerBound.search (chainCache genesisChain 100000).longTermWeights
              (genesisChain.weights 100000).longTermWeight)) (genesisChain.weights 100000).longTermWeight }) := by
  have hs := List.sorted_mergeSort'
    (windowWeights genesisChain BlockWeightInfo.longTermWeight longTermWindow 100000)
  obtain ⟨hidx, -⟩ := BinarySearch.lowerBound.insertIdx_index hs (genesisChain.weights 100000).longTermWeight
  simp only [newBlockAdded, chainCache, ne_eq, not_true_eq_false, if_false, not_lt.2 hidx,
    removeLongTermWeight, checkedSub_of_le (show longTermWindow ≤ 100000 from le_rfl),
    Database.oneshot, Database.unavailable, Except.bind]

theorem newBlockAdded_firstEviction_unavailable :
    (⟨[], [], 99999⟩ : BlockWeightsCache).newBlockAdded .lowerBound 100000 0 0 .unavailable =
      some (.error .database, ⟨[], [0], 100000⟩) :=
  rfl

/-- With the store down at the first eviction, `new_block_added` fails and leaves a cache
    with the tip advanced and the new long-term weight inserted: not the cache it started
    from. So it is from the bare cache at tip `99999`, and from the cache
    `init_from_chain_height(100000)` builds over a chain of blocks of weight `0`. -/
theorem newBlockAdded_error_changes_cache :
    (∃ c', (⟨[], [], 99999⟩ : BlockWeightsCache).newBlockAdded .lowerBound 100000 0 0 .unavailable =
        some (.error .database, c') ∧
      c' ≠ ⟨[], [], 99999⟩ ∧ c'.tipHeight = 100000 ∧ c'.longTermWeights = [0]) ∧
    ∃ c c', initFromChainHeight 100000 genesisChain.database = some (.ok c) ∧
      c.newBlockAdded .lowerBound 100000 (genesisChain.weights 100000).blockWeight
          (genesisChain.weights 100000).longTermWeight .unavailable = some (.error .database, c') ∧
      c'.tipHeight = c.tipHeight + 1 ∧ c'.longTermWeights.length = c.longTermWeights.length + 1 := by
  refine ⟨⟨_, newBlockAdded_firstEviction_unavailable, by decide, rfl, rfl⟩,
    _, _, initFromChainHeight_chain genesisChain (by decide), newBlockAdded_genesis_unavailable, rfl, ?_⟩
  have hs := List.sorted_mergeSort'
    (windowWeights genesisChain BlockWeightInfo.longTermWeight longTermWindow 100000)
  exact List.length_insertIdx _ _ (BinarySearch.lowerBound.insertIdx_index hs _).1

/-- On a fixed chain, the eviction of block `height - LONG_TERM_WINDOW` from a sorted list
    holding the new long-term weight, the weights of the window and one more weight `x`
    completes, and leaves `x` and the weights of the window one block higher, sorted. -/
theorem removeLongTermWeight_chain_cons (bs : BinarySearch) (chain : ChainData) {height x : Nat}
    (hle : longTermWindow ≤ height) {l : List Nat} (hs : l.Sorted (· ≤ ·))
    (hp : l.Perm ((chain.weights height).longTermWeight :: x ::
      windowWeights chain BlockWeightInfo.longTermWeight longTermWindow height)) :
    removeLongTermWeight bs height l chain.database = some (.ok
      (x :: windowWeights chain BlockWeightInfo.longTermWeight longTermWindow (height + 1)).mergeSort) := by
  have hw := (List.perm_append_singleton (chain.weights height).longTermWeight
    (windowWeights chain BlockWeightInfo.longTermWeight longTermWindow height)).symm
  rw [windowWeights_append_of_le chain _ hle] at hw
  have hp' := hp.trans ((List.Perm.swap _ _ _).trans (hw.cons x))
  obtain ⟨idx, hidx, hget⟩ := bs.search_of_mem hs
    (hp'.mem_iff.2 (List.mem_cons_of_mem _ (List.mem_cons_self _ _)))
  have hperm := ((perm_cons_eraseIdx hget).symm.trans (hp'.trans (List.Perm.swap _ _ _))).cons_inv
  unfold removeLongTermWeight
  simp only [checkedSub_of_le hle, ChainData.oneshot, ChainData.call_blockWeights, hidx,
    (List.getElem?_eq_some_iff.1 hget).1, if_true, ← eq_mergeSort_of_perm (Sorted.eraseIdx hs idx) hperm]

/-- On a full short-term window, `push_back` then `pop_front` drops the oldest weight. -/
theorem pushShortTermBlockWeight_of_length {l : List Nat} (hl : l.length = shortTermWindow)
    (blockWeight : Nat) : pushShortTermBlockWeight l blockWeight = (l ++ [blockWeight]).tail := by
  rw [pushShortTermBlockWeight, if_pos (by simp [hl])]

/-- The cache that a failed `new_block_added` of block `height` leaves on a fixed chain,
    after `m` more blocks: the short-term deque lacks the weight of block `height` until
    it slides out, and the long-term window keeps the weight of block
    `height - LONG_TERM_WINDOW`, which the failed call did not evict. -/
def cacheAfterFailure (chain : ChainData) (height m : Nat) : BlockWeightsCache :=
  ⟨(windowWeights chain BlockWeightInfo.blockWeight shortTermWindow height ++
      (List.range' (height + 1) m).map fun k => (chain.weights k).blockWeight).drop m,
    ((chain.weights (height - longTermWindow)).longTermWeight ::
      windowWeights chain BlockWeightInfo.longTermWeight longTermWindow (height + m + 1)).mergeSort,
    height + m⟩

/-- Feeding the next block of the chain to `cacheAfterFailure` completes, and evicts
    only the block then leaving the long-term window. -/
theorem newBlockAdded_cacheAfterFailure (bs : BinarySearch) (chain : ChainData) {height : Nat}
    (hh : longTermWindow ≤ height) (m : Nat) :
    (cacheAfterFailure chain height m).newBlockAdded bs (height + m + 1)
        (chain.weights (height + m + 1)).blockWeight (chain.weights (height + m + 1)).longTermWeight
        chain.database =
      some (.ok (), cacheAfterFailure chain height (m + 1)) := by
  have hs := List.sorted_mergeSort' ((chain.weights (height - longTermWindow)).longTermWeight ::
    windowWeights chain BlockWeightInfo.longTermWeight longTermWindow (height + m + 1))
  obtain ⟨hidx, hsorted⟩ := bs.insertIdx_index hs (chain.weights (height + m + 1)).longTermWeight
  have hp := (List.perm_insertIdx (chain.weights (height + m + 1)).longTermWeight _ hidx).trans
    ((List.mergeSort_perm _ _).cons _)
  have hlen : (windowWeights chain BlockWeightInfo.blockWeight shortTermWindow height ++
      (List.range' (height + 1) m).map fun k => (chain.weights k).blockWeight).length =
      shortTermWindow + m := by
    rw [List.length_append, windowWeights, List.length_map, length_window, List.length_map,
      List.length_range', Nat.min_eq_right (le_trans (by decide) hh)]
  have hrange : (List.range' (height + 1) m).map (fun k => (chain.weights k).blockWeight) ++
      [(chain.weights (height + m + 1)).blockWeight] =
      (List.range' (height + 1) (m + 1)).map fun k => (chain.weights k).blockWeight := by
    rw [List.range'_concat, List.map_append, List.map_singleton, Nat.one_mul,
      show height + 1 + m = height + m + 1 by omega]
  have hshort : pushShortTermBlockWeight ((windowWeights chain BlockWeightInfo.blockWeight
      shortTermWindow height ++ (List.range' (height + 1) m).map fun k => (chain.weights k).blockWeight).drop m)
      (chain.weights (height + m + 1)).blockWeight =
      (windowWeights chain BlockWeightInfo.blockWeight shortTermWindow height ++
        (List.range' (height + 1) (m + 1)).map fun k => (chain.weights k).blockWeight).drop (m + 1) := by
    rw [pushShortTermBlockWeight_of_length (by rw [List.length_drop, hlen, Nat.add_sub_cancel]),
      ← List.drop_append_of_le_length (by omega), List.tail_drop, List.append_assoc, hrange]
  simp only [newBlockAdded, cacheAfterFailure, ne_eq, not_true_eq_false, if_false, not_lt.2 hidx,
    removeLongTermWeight_chain_cons bs chain (by omega) hsorted hp, hshort]
  rfl

/-- On a fixed chain: when `new_block_added` of block `h` on the cache the chain determines
    at `h` fails, whatever store it was given and whichever search meeting the
    `binary_search` contract it uses, feeding block `h` again panics at the `assert_eq!`;
    and every run of the next `n` blocks with the chain's store completes and ends in
    `cacheAfterFailure chain h n`, whose long-term window holds `LONG_TERM_WINDOW + 1`
    weights, the weight of block `h - LONG_TERM_WINDOW` never leaving it, so that the
    cache is never well formed again. -/
theorem feedWeights_after_failed_newBlockAdded (bs : BinarySearch) (chain : ChainData) {h : Nat}
    {c₁ : BlockWeightsCache} {database : Database} {e : ConsensusError}
    (hfail : (chainCache chain h).newBlockAdded bs h (chain.weights h).blockWeight
      (chain.weights h).longTermWeight database = some (.error e, c₁)) :
    (∀ blockWeight longTermWeight database',
      c₁.newBlockAdded bs h blockWeight longTermWeight database' = none) ∧
    ∀ n, feedWeights bs chain c₁ (h + 1) n = some (.ok (cacheAfterFailure chain h n)) ∧
      (cacheAfterFailure chain h n).longTermWeights.length = longTermWindow + 1 ∧
      ¬ (cacheAfterFailure chain h n).WellFormed := by
  obtain ⟨hh, hle, rfl⟩ := newBlockAdded_error_eq hfail
  simp only [chainCache] at hh
  have hs := List.sorted_mergeSort'
    (windowWeights chain BlockWeightInfo.longTermWeight longTermWindow h)
  obtain ⟨hidx, hsorted⟩ := bs.insertIdx_index hs (chain.weights h).longTermWeight
  have hw := (List.perm_append_singleton (chain.weights h).longTermWeight
    (windowWeights chain BlockWeightInfo.longTermWeight longTermWindow h)).symm
  rw [windowWeights_append_of_le chain _ hle] at hw
  have hp := ((List.perm_insertIdx (chain.weights h).longTermWeight _ hidx).trans
    ((List.mergeSort_perm _ _).cons _)).trans hw
  have h₀ : { chainCache chain h with
      tipHeight := (chainCache chain h).tipHeight + 1
      longTermWeights := (chainCache chain h).longTermWeights.insertIdx
        (searchIndex (bs.search (chainCache chain h).longTermWeights (chain.weights h).longTermWeight))
        (chain.weights h).longTermWeight } = cacheAfterFailure chain h 0 := by
    simp only [chainCache, cacheAfterFailure, List.range'_zero, List.map_nil, List.append_nil,
      List.drop_zero, Nat.add_zero, eq_mergeSort_of_perm hsorted hp, ← hh]
  rw [h₀]
  have hrun (n : Nat) : ∀ m, feedWeights bs chain (cacheAfterFailure chain h m) (h + m + 1) n =
      some (.ok (cacheAfterFailure chain h (m + n))) := by
    induction n with
    | zero => intro m; rfl
    | succ n ih =>
      intro m
      rw [feedWeights, newBlockAdded_cacheAfterFailure bs chain hle m]
      dsimp only
      rw [show h + m + 1 + 1 = h + (m + 1) + 1 by omega, ih, Nat.add_right_comm, Nat.add_assoc]
  refine ⟨fun _ _ _ => if_pos (by simp only [cacheAfterFailure]; omega), fun n => ?_⟩
  have hlen : (cacheAfterFailure chain h n).longTermWeights.length = longTermWindow + 1 := by
    rw [cacheAfterFailure, List.length_mergeSort, List.length_cons, windowWeights, List.length_map,
      length_window, Nat.min_eq_right (Nat.le_add_right_of_le (Nat.le_add_right_of_le hle))]
  refine ⟨by simpa using hrun n 0, hlen, fun hwf => ?_⟩
  have := hwf.length_longTermWeights
  omega

/-- `feedWeights_after_failed_newBlockAdded` on a chain of blocks of weight `0`, at the
    first block with a block to evict, against a store that is down. -/
theorem feedWeights_after_failed_newBlockAdded_genesis :
    ∃ c₁, (chainCache genesisChain 100000).newBlockAdded .lowerBound 100000
        (genesisChain.weights 100000).blockWeight (genesisChain.weights 100000).longTermWeight
        .unavailable = some (.error .database, c₁) ∧
      (∀ blockWeight longTermWeight database',
        c₁.newBlockAdded .lowerBound 100000 blockWeight longTermWeight database' = none) ∧
      ∀ n, feedWeights .lowerBound genesisChain c₁ (100000 + 1) n =
          some (.ok (cacheAfterFailure genesisChain 100000 n)) ∧
        (cacheAfterFailure genesisChain 100000 n).longTermWeights.length = longTermWindow + 1 ∧
        ¬ (cacheAfterFailure genesisChain 100000 n).WellFormed :=
  ⟨_, newBlockAdded_genesis_unavailable,
    feedWeights_after_failed_newBlockAdded .lowerBound genesisChain newBlockAdded_genesis_unavailable⟩

end BlockWeightsCache

end Cuprate
