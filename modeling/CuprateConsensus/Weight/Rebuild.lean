import CuprateConsensus.Weight.Cache

/-! # Rebuilding the block weights cache

    On a store that answers from a fixed chain, the cache a chain determines at a height
    is `chainCache`: the block weights of the short-term window in chain order, the
    long-term weights of the long-term window in ascending order, and the block below
    the height as the tip. `init_from_chain_height` builds exactly that cache, and one
    `new_block_added` with the next block of the chain turns the cache at `h` into the
    cache at `h + 1` (`newBlockAdded_chainCache`), for every search meeting the
    `binary_search` contract.

    The long-term window is compared up to order: the list the cache holds is sorted
    and a permutation of the window's weights, so it is the sorted list of those
    weights. Below `LONG_TERM_WINDOW` the new weight only joins the window; from there on
    the weight of the block `LONG_TERM_WINDOW` below also leaves it, and it is in the
    list, so the `expect` never fires whichever equal weight the search finds.
-/

namespace Cuprate

namespace BlockWeightsCache

/-! ## Section 1: The windows of a fixed chain -/

/-- One field of the weights of the blocks of a window, in chain order. -/
def windowWeights (chain : ChainData) (field : BlockWeightInfo → Nat) (size height : Nat) :
    List Nat :=
  (window size height).map fun k => field (chain.weights k)

/-- The cache a fixed chain determines at `height`. -/
def chainCache (chain : ChainData) (height : Nat) : BlockWeightsCache :=
  ⟨windowWeights chain BlockWeightInfo.blockWeight shortTermWindow height,
    (windowWeights chain BlockWeightInfo.longTermWeight longTermWindow height).mergeSort,
    height - 1⟩

theorem getWeightsInRange_chain (chain : ChainData) (field : BlockWeightInfo → Nat)
    (size height : Nat) :
    getWeightsInRange field (height - size) height chain.database =
      some (.ok (windowWeights chain field size height)) := by
  simp only [getWeightsInRange, ChainData.oneshot, ChainData.call_blockWeightsInRange,
    windowWeights, window, List.map_map]
  rfl

/-- On a fixed chain, `init_from_chain_height` builds the cache the chain determines. -/
theorem initFromChainHeight_chain (chain : ChainData) {height : Nat} (h1 : 1 ≤ height) :
    initFromChainHeight height chain.database = some (.ok (chainCache chain height)) := by
  simp only [initFromChainHeight, getLongTermWeightInRange, getBlocksWeightInRange,
    getWeightsInRange_chain, checkedSub_of_le h1, Option.map_some']
  rfl

theorem windowWeights_succ_of_lt (chain : ChainData) (field : BlockWeightInfo → Nat)
    {size height : Nat} (h : height < size) :
    windowWeights chain field size (height + 1) =
      windowWeights chain field size height ++ [field (chain.weights height)] := by
  simp only [windowWeights, window_succ_of_lt h, List.map_append, List.map_cons, List.map_nil]

theorem windowWeights_append_of_le (chain : ChainData) (field : BlockWeightInfo → Nat)
    {size height : Nat} (h : size ≤ height) :
    windowWeights chain field size height ++ [field (chain.weights height)] =
      field (chain.weights (height - size)) :: windowWeights chain field size (height + 1) := by
  have hw := congrArg (List.map fun k => field (chain.weights k)) (window_append_of_le h)
  simpa only [List.map_append, List.map_cons, List.map_nil] using hw

/-- A sorted permutation of a list is the list sorted. -/
theorem eq_mergeSort_of_perm {l l' : List Nat} (hs : l.Sorted (· ≤ ·)) (hp : l.Perm l') :
    l = l'.mergeSort :=
  List.eq_of_perm_of_sorted (hp.trans (List.mergeSort_perm l' _).symm) hs (List.sorted_mergeSort' _)

/-! ## Section 2: One block -/

/-- The short-term window after one more block: below `SHORT_TERM_WINDOW` the deque only
    grows, from there the oldest weight is popped. -/
theorem pushShortTermBlockWeight_chain (chain : ChainData) (height : Nat) :
    pushShortTermBlockWeight (windowWeights chain BlockWeightInfo.blockWeight shortTermWindow height)
        (chain.weights height).blockWeight =
      windowWeights chain BlockWeightInfo.blockWeight shortTermWindow (height + 1) := by
  have hlen (k : Nat) : (windowWeights chain BlockWeightInfo.blockWeight shortTermWindow k).length =
      min k shortTermWindow := by
    rw [windowWeights, List.length_map, length_window]
  unfold pushShortTermBlockWeight
  by_cases h : height < shortTermWindow
  · rw [List.length_append, hlen, List.length_singleton, if_neg (by omega),
      windowWeights_succ_of_lt chain _ h]
  · rw [windowWeights_append_of_le chain _ (by omega), List.length_cons, hlen, if_pos (by omega),
      List.tail_cons]

/-- The eviction after the new long-term weight was inserted into the sorted window at
    `height`: it completes, and leaves the sorted window at `height + 1`. -/
theorem removeLongTermWeight_chain (bs : BinarySearch) (chain : ChainData) {height : Nat}
    {l : List Nat} (hs : l.Sorted (· ≤ ·))
    (hp : l.Perm ((chain.weights height).longTermWeight ::
      windowWeights chain BlockWeightInfo.longTermWeight longTermWindow height)) :
    removeLongTermWeight bs height l chain.database =
      some (.ok (windowWeights chain BlockWeightInfo.longTermWeight longTermWindow
        (height + 1)).mergeSort) := by
  have hp' := hp.trans (List.perm_append_singleton _ _).symm
  unfold removeLongTermWeight
  by_cases h : height < longTermWindow
  · rw [checkedSub_eq_none.2 h, windowWeights_succ_of_lt chain _ h, ← eq_mergeSort_of_perm hs hp']
  · have hle : longTermWindow ≤ height := by omega
    rw [windowWeights_append_of_le chain _ hle] at hp'
    obtain ⟨idx, hidx, hget⟩ := bs.search_of_mem hs (hp'.mem_iff.2 (List.mem_cons_self _ _))
    have hperm := ((perm_cons_eraseIdx hget).symm.trans hp').cons_inv
    simp only [checkedSub_of_le hle, ChainData.oneshot, ChainData.call_blockWeights, hidx,
      (List.getElem?_eq_some_iff.1 hget).1, if_true, ← eq_mergeSort_of_perm (Sorted.eraseIdx hs idx) hperm]

/-- On a fixed chain, feeding the next block of the chain to the cache the chain
    determines at `height` completes, whichever index among equal weights the search
    returns, and gives the cache the chain determines at `height + 1`. -/
theorem newBlockAdded_chainCache (bs : BinarySearch) (chain : ChainData) {height : Nat}
    (h1 : 1 ≤ height) :
    (chainCache chain height).newBlockAdded bs height (chain.weights height).blockWeight
        (chain.weights height).longTermWeight chain.database =
      some (.ok (), chainCache chain (height + 1)) := by
  have hs := List.sorted_mergeSort'
    (windowWeights chain BlockWeightInfo.longTermWeight longTermWindow height)
  obtain ⟨hidx, hsorted⟩ := bs.insertIdx_index hs (chain.weights height).longTermWeight
  have hp := (List.perm_insertIdx (chain.weights height).longTermWeight _ hidx).trans
    ((List.mergeSort_perm _ _).cons _)
  simp only [newBlockAdded, chainCache, Nat.sub_add_cancel h1, ne_eq, not_true_eq_false, if_false,
    not_lt.2 hidx, removeLongTermWeight_chain bs chain hsorted hp, pushShortTermBlockWeight_chain,
    Nat.add_sub_cancel]

/-! ## Section 3: Runs of blocks -/

/-- Feed blocks `height, height + 1, …` of a fixed chain to `new_block_added`, `n` of
    them, each with its stored weights; the run stops at the first call that fails. -/
def feedWeights (bs : BinarySearch) (chain : ChainData) :
    BlockWeightsCache → Nat → Nat → Option (Except ConsensusError BlockWeightsCache)
  | c, _, 0 => some (.ok c)
  | c, height, n + 1 =>
    match c.newBlockAdded bs height (chain.weights height).blockWeight
        (chain.weights height).longTermWeight chain.database with
    | none => none
    | some (.error e, _) => some (.error e)
    | some (.ok (), c') => feedWeights bs chain c' (height + 1) n

theorem feedWeights_chainCache (bs : BinarySearch) (chain : ChainData) (n : Nat) :
    ∀ {height : Nat}, 1 ≤ height →
      feedWeights bs chain (chainCache chain height) height n =
        some (.ok (chainCache chain (height + n))) := by
  induction n with
  | zero => intro height _; rfl
  | succ n ih =>
    intro height h1
    rw [feedWeights, newBlockAdded_chainCache bs chain h1]
    dsimp only
    rw [ih (by omega), show height + 1 + n = height + (n + 1) by omega]

/-- For every store answering from a fixed chain, every chain height `h ≥ 1` and every
    search meeting the `binary_search` contract: `init_from_chain_height(h)` builds the
    cache the chain determines at `h`; feeding it block `h` completes and gives the cache
    `init_from_chain_height(h + 1)` builds; and every run of `n` in-order blocks from it
    completes and ends in the cache `init_from_chain_height(h + n)` builds. -/
theorem newBlockAdded_eq_initFromChainHeight (bs : BinarySearch) (chain : ChainData) {h : Nat}
    (h1 : 1 ≤ h) :
    initFromChainHeight h chain.database = some (.ok (chainCache chain h)) ∧
      (chainCache chain h).newBlockAdded bs h (chain.weights h).blockWeight
          (chain.weights h).longTermWeight chain.database = some (.ok (), chainCache chain (h + 1)) ∧
      initFromChainHeight (h + 1) chain.database = some (.ok (chainCache chain (h + 1))) ∧
      ∀ n, feedWeights bs chain (chainCache chain h) h n = some (.ok (chainCache chain (h + n))) ∧
        initFromChainHeight (h + n) chain.database = some (.ok (chainCache chain (h + n))) :=
  ⟨initFromChainHeight_chain chain h1, newBlockAdded_chainCache bs chain h1,
    initFromChainHeight_chain chain (by omega),
    fun n => ⟨feedWeights_chainCache bs chain n h1, initFromChainHeight_chain chain (by omega)⟩⟩

theorem newBlockAdded_eq_initFromChainHeight_genesis :
    1 ≤ 1 ∧
      initFromChainHeight 1 genesisChain.database = some (.ok (chainCache genesisChain 1)) ∧
      (chainCache genesisChain 1).newBlockAdded .lowerBound 1 (genesisChain.weights 1).blockWeight
          (genesisChain.weights 1).longTermWeight genesisChain.database =
        some (.ok (), chainCache genesisChain (1 + 1)) ∧
      initFromChainHeight (1 + 1) genesisChain.database = some (.ok (chainCache genesisChain (1 + 1))) ∧
      ∀ n, feedWeights .lowerBound genesisChain (chainCache genesisChain 1) 1 n =
          some (.ok (chainCache genesisChain (1 + n))) ∧
        initFromChainHeight (1 + n) genesisChain.database = some (.ok (chainCache genesisChain (1 + n))) :=
  ⟨le_rfl, newBlockAdded_eq_initFromChainHeight .lowerBound genesisChain le_rfl⟩

end BlockWeightsCache

end Cuprate
