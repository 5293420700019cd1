import CuprateConsensus.Database
import CuprateConsensus.Weight.Limits
import CuprateConsensus.Weight.BinarySearch

/-! # The block weights cache

    `BlockWeightsCache` of `weight.rs`: the block weights of the last `SHORT_TERM_WINDOW`
    blocks in chain order, the long-term weights of the last `LONG_TERM_WINDOW` blocks
    kept sorted, and the height of the top block. It is built once from the chain store
    (`initFromChainHeight`) and then fed one block at a time (`newBlockAdded`), which
    inserts the new long-term weight where `binary_search` says, removes the long-term
    weight of the block that left the window, fetched from the store, and pushes the new
    block weight, popping the oldest past the short-term window.

    `new_block_added` works on `&mut self`: `newBlockAdded` returns the cache as it stands
    when the call ends, also when it ends with an error. `sort_unstable` of a `Vec<usize>`
    is `List.mergeSort`: a sorted permutation of a list of numbers is unique. Heights are
    numbers; `tip_height + 1` could only overflow at a tip of `u64::MAX`, where the
    height assert fails for every `u64` height.

    Section 3 says once what a completed call did. Section 4 proves that every cache
    reached from `init_from_chain_height` keeps the long-term window sorted and both
    windows as long as the chain allows, over every run of completed calls. Section 5
    takes the two calculations of `weight.rs` to a well-formed cache, where their medians
    are the reference medians of non-empty windows, and shows where the effective median
    has a floor: from `V10` on, and not before.
-/

namespace Cuprate

/-! ## Section 1: Windows and the cache -/

/-- `SHORT_TERM_WINDOW`. -/
def shortTermWindow : Nat := 100

/-- `LONG_TERM_WINDOW`. -/
def longTermWindow : Nat := 100000

/-- A cache used to calculate block weight limits, the effective median and long term
    block weights. -/
structure BlockWeightsCache where
  /-- This list is not sorted. -/
  shortTermBlockWeights : List Nat
  /-- This list is sorted. -/
  longTermWeights : List Nat
  /-- The height of the top block. -/
  tipHeight : Nat
  deriving DecidableEq, Repr

/-- The two range fetches of `weight.rs`: one field of the weights of the blocks of
    `start..stop`, in the order the store returns them. -/
def getWeightsInRange (field : BlockWeightInfo → Nat) (start stop : Nat) (database : Database) :
    Option (Except ConsensusError (List Nat)) :=
  match database.oneshot (.blockWeightsInRange start stop) with
  | .error e => some (.error e)
  | .ok (.blockWeightsInRange weights) => some (.ok (weights.map field))
  | .ok _ => none

/-- `get_blocks_weight_in_range`. -/
def getBlocksWeightInRange (start stop : Nat) (database : Database) :
    Option (Except ConsensusError (List Nat)) :=
  getWeightsInRange BlockWeightInfo.blockWeight start stop database

/-- `get_long_term_weight_in_range`. -/
def getLongTermWeightInRange (start stop : Nat) (database : Database) :
    Option (Except ConsensusError (List Nat)) :=
  getWeightsInRange BlockWeightInfo.longTermWeight start stop database

/-- A completed range fetch returns the field of each weight the store answered with. -/
theorem getWeightsInRange_ok {field : BlockWeightInfo → Nat} {start stop : Nat}
    {database : Database} {weights : List Nat}
    (h : getWeightsInRange field start stop database = some (.ok weights)) :
    ∃ infos, database.call (.blockWeightsInRange start stop) = .ok (.blockWeightsInRange infos) ∧
      weights = infos.map field := by
  unfold getWeightsInRange at h
  split at h <;> cases h
  exact ⟨_, Database.call_of_oneshot ‹_›, rfl⟩

namespace BlockWeightsCache

/-! ## Section 2: Operations -/

/-- `BlockWeightsCache::init_from_chain_height`. `chain_height - 1` is computed after both
    fetches, and panics on an empty chain. -/
def initFromChainHeight (chainHeight : Nat) (database : Database) :
    Option (Except ConsensusError BlockWeightsCache) :=
  match getLongTermWeightInRange (chainHeight - longTermWindow) chainHeight database with
  | none => none
  | some (.error e) => some (.error e)
  | some (.ok longTermWeights) =>
    match getBlocksWeightInRange (chainHeight - shortTermWindow) chainHeight database with
    | none => none
    | some (.error e) => some (.error e)
    | some (.ok shortTermBlockWeights) =>
      (checkedSub chainHeight 1).map fun tipHeight =>
        .ok ⟨shortTermBlockWeights, longTermWeights.mergeSort, tipHeight⟩

/-- `BlockWeightsCache::init`: read the chain height, then build the cache there. -/
def init (database : Database) : Option (Except ConsensusError BlockWeightsCache) :=
  match database.oneshot .chainHeight with
  | .error e => some (.error e)
  | .ok (.chainHeight chainHeight) => initFromChainHeight chainHeight database
  | .ok _ => none

/-- The eviction of `new_block_added`: from `LONG_TERM_WINDOW` on, fetch the weights of
    the block that has left the long-term window, find its long-term weight in the list
    (`expect` panics if it is not there) and remove it. -/
def removeLongTermWeight (bs : BinarySearch) (blockHeight : Nat) (longTermWeights : List Nat)
    (database : Database) : Option (Except ConsensusError (List Nat)) :=
  match checkedSub blockHeight longTermWindow with
  | none => some (.ok longTermWeights)
  | some heightToRemove =>
    match database.oneshot (.blockWeights heightToRemove) with
    | .error e => some (.error e)
    | .ok (.blockWeights weights) =>
      match bs.search longTermWeights weights.longTermWeight with
      | .error _ => none
      | .ok idx =>
        if idx < longTermWeights.length then some (.ok (longTermWeights.eraseIdx idx)) else none
    | .ok _ => none

/-- `push_back` of the new block weight, then `pop_front` once the deque is longer than
    `SHORT_TERM_WINDOW`. -/
def pushShortTermBlockWeight (shortTermBlockWeights : List Nat) (blockWeight : Nat) : List Nat :=
  if shortTermWindow < (shortTermBlockWeights ++ [blockWeight]).length then
    (shortTermBlockWeights ++ [blockWeight]).tail
  else shortTermBlockWeights ++ [blockWeight]

/-- `BlockWeightsCache::new_block_added`, for a `binary_search` that meets its contract.
    The tip and the inserted long-term weight are written before the store is asked for
    the block leaving the window, and stay written when that request fails. -/
def newBlockAdded (c : BlockWeightsCache) (bs : BinarySearch)
    (blockHeight blockWeight longTermWeight : Nat) (database : Database) :
    Option (Except ConsensusError Unit × BlockWeightsCache) :=
  if c.tipHeight + 1 ≠ blockHeight then none
  else
    let idx := searchIndex (bs.search c.longTermWeights longTermWeight)
    if c.longTermWeights.length < idx then none
    else
      let longTermWeights := c.longTermWeights.insertIdx idx longTermWeight
      match removeLongTermWeight bs blockHeight longTermWeights database with
      | none => none
      | some (.error e) => some (.error e, { c with tipHeight := c.tipHeight + 1, longTermWeights })
      | some (.ok longTermWeights) =>
        some (.ok (), ⟨pushShortTermBlockWeight c.shortTermBlockWeights blockWeight,
          longTermWeights, c.tipHeight + 1⟩)

/-- `BlockWeightsCache::next_block_long_term_weight`. -/
def nextBlockLongTermWeight (c : BlockWeightsCache) (hf : HardFork) (blockWeight : Nat) :
    Option Nat :=
  calculateBlockLongTermWeight hf blockWeight c.longTermWeights

/-- `BlockWeightsCache::effective_median_block_weight`: the short-term window is sorted
    first. -/
def effectiveMedianBlockWeight (c : BlockWeightsCache) (hf : HardFork) : Option Nat :=
  calculateEffectiveMedianBlockWeight hf c.shortTermBlockWeights.mergeSort c.longTermWeights

theorem length_pushShortTermBlockWeight {shortTermBlockWeights : List Nat}
    (h : shortTermBlockWeights.length ≤ shortTermWindow) (blockWeight : Nat) :
    (pushShortTermBlockWeight shortTermBlockWeights blockWeight).length =
      min (shortTermBlockWeights.length + 1) shortTermWindow := by
  unfold pushShortTermBlockWeight
  split_ifs with hlt <;> simp only [List.length_tail, List.length_append, List.length_singleton] at * <;>
    omega

/-- A completed eviction kept the list below `LONG_TERM_WINDOW`, and from there removed
    the element at an index the search returned for the long-term weight of the block
    `LONG_TERM_WINDOW` below. -/
theorem removeLongTermWeight_ok {bs : BinarySearch} {blockHeight : Nat} {l l' : List Nat}
    {database : Database} (h : removeLongTermWeight bs blockHeight l database = some (.ok l')) :
    (blockHeight < longTermWindow ∧ l' = l) ∨
      (longTermWindow ≤ blockHeight ∧ ∃ weights idx,
        database.call (.blockWeights (blockHeight - longTermWindow)) = .ok (.blockWeights weights) ∧
        bs.search l weights.longTermWeight = .ok idx ∧ idx < l.length ∧ l' = l.eraseIdx idx) := by
  unfold removeLongTermWeight at h
  split at h
  · cases h
    exact .inl ⟨checkedSub_eq_none.1 ‹_›, rfl⟩
  · rename_i heightToRemove hsub
    obtain ⟨hle, rfl⟩ := checkedSub_eq_some.1 hsub
    split at h <;> try cases h
    rename_i weights hcall
    split at h <;> try cases h
    rename_i idx hidx
    split_ifs at h with hlt
    cases h
    exact .inr ⟨hle, weights, idx, Database.call_of_oneshot hcall, hidx, hlt, rfl⟩

/-- A completed `new_block_added` was given the next height; it inserted the long-term
    weight at the index the search returned, completed the eviction from there, and
    pushed the block weight. -/
theorem newBlockAdded_ok {c c' : BlockWeightsCache} {bs : BinarySearch}
    {blockHeight blockWeight longTermWeight : Nat} {database : Database}
    (h : c.newBlockAdded bs blockHeight blockWeight longTermWeight database = some (.ok (), c')) :
    blockHeight = c.tipHeight + 1 ∧
      searchIndex (bs.search c.longTermWeights longTermWeight) ≤ c.longTermWeights.length ∧
      removeLongTermWeight bs blockHeight (c.longTermWeights.insertIdx
          (searchIndex (bs.search c.longTermWeights longTermWeight)) longTermWeight) database =
        some (.ok c'.longTermWeights) ∧
      c'.shortTermBlockWeights = pushShortTermBlockWeight c.shortTermBlockWeights blockWeight ∧
      c'.tipHeight = c.tipHeight + 1 := by
  unfold newBlockAdded at h
  dsimp only at h
  split_ifs at h with hh hidx
  split at h <;> try cases h
  rename_i hrem
  exact ⟨by omega, by omega, hrem, rfl, rfl⟩

/-! ## Section 4: The windows stay sorted and full -/

/-- The shape every cache keeps: the long-term window sorted, and both windows holding
    one weight per block below the next one, up to their sizes. -/
structure WellFormed (c : BlockWeightsCache) : Prop where
  sorted : c.longTermWeights.Sorted (· ≤ ·)
  length_longTermWeights : c.longTermWeights.length = min (c.tipHeight + 1) longTermWindow
  length_shortTermBlockWeights :
    c.shortTermBlockWeights.length = min (c.tipHeight + 1) shortTermWindow

theorem WellFormed.longTermWeights_ne_nil {c : BlockWeightsCache} (hc : c.WellFormed) :
    c.longTermWeights ≠ [] := by
  rw [← List.length_pos, hc.length_longTermWeights]
  exact lt_min (Nat.succ_pos _) (by decide)

theorem WellFormed.shortTermBlockWeights_ne_nil {c : BlockWeightsCache} (hc : c.WellFormed) :
    c.shortTermBlockWeights ≠ [] := by
  rw [← List.length_pos, hc.length_shortTermBlockWeights]
  exact lt_min (Nat.succ_pos _) (by decide)

/-- The caches that in-order `new_block_added` calls, each completing, lead to from `c`,
    with any weights and any store at each call. -/
inductive Reaches (bs : BinarySearch) : BlockWeightsCache → BlockWeightsCache → Prop
  | refl (c : BlockWeightsCache) : Reaches bs c c
  | newBlockAdded {c t t' : BlockWeightsCache} {blockHeight blockWeight longTermWeight : Nat}
      {database : Database} : Reaches bs c t →
      t.newBlockAdded bs blockHeight blockWeight longTermWeight database = some (.ok (), t') →
      Reaches bs c t'

/-- A store whose every answer to a range request has one entry per height of the range;
    the weights in it, and its answers to point requests, are arbitrary. -/
def RangeComplete (database : Database) : Prop :=
  ∀ start stop infos,
    database.call (.blockWeightsInRange start stop) = .ok (.blockWeightsInRange infos) →
    infos.length = stop - start

/-- A store answering from a fixed chain answers ranges completely. -/
theorem rangeComplete_chain (chain : ChainData) : RangeComplete chain.database := by
  intro start stop infos h
  rw [ChainData.call_blockWeightsInRange, Except.ok.injEq, DatabaseResponse.blockWeightsInRange.injEq] at h
  rw [← h, List.length_map, List.length_range']

/-- A cache built from a store that answers ranges completely is well formed. -/
theorem WellFormed.initFromChainHeight {database : Database} (hdb : RangeComplete database)
    {chainHeight : Nat} {c : BlockWeightsCache}
    (h : initFromChainHeight chainHeight database = some (.ok c)) : c.WellFormed := by
  unfold BlockWeightsCache.initFromChainHeight at h
  split at h <;> try cases h
  rename_i lw hlw
  split at h <;> try cases h
  rename_i sw hsw
  obtain ⟨tipHeight, hsub, hok⟩ := Option.map_eq_some'.1 h
  cases hok
  obtain ⟨h1, rfl⟩ := checkedSub_eq_some.1 hsub
  obtain ⟨linfos, hl, rfl⟩ := getWeightsInRange_ok hlw
  obtain ⟨sinfos, hs, rfl⟩ := getWeightsInRange_ok hsw
  refine ⟨List.sorted_mergeSort' _, ?_, ?_⟩ <;>
    simp only [List.length_mergeSort, List.length_map, hdb _ _ _ hl, hdb _ _ _ hs,
      Nat.sub_add_cancel h1, Nat.sub_sub_eq_min]

/-- A completed `new_block_added` keeps a cache well formed, whatever the weights, the
    store and the index among equal weights the search returns. -/
theorem WellFormed.newBlockAdded {c c' : BlockWeightsCache} {bs : BinarySearch}
    {blockHeight blockWeight longTermWeight : Nat} {database : Database} (hc : c.WellFormed)
    (h : c.newBlockAdded bs blockHeight blockWeight longTermWeight database = some (.ok (), c')) :
    c'.WellFormed := by
  obtain ⟨rfl, hidx, hrem, hshort, htip⟩ := newBlockAdded_ok h
  obtain ⟨-, hsorted⟩ := bs.insertIdx_index hc.sorted longTermWeight
  have hlen := List.length_insertIdx _ _ hidx (a := longTermWeight)
  have hlong : c'.longTermWeights.Sorted (· ≤ ·) ∧
      c'.longTermWeights.length = min (c.tipHeight + 1 + 1) longTermWindow := by
    rcases removeLongTermWeight_ok hrem with ⟨hlt, hl⟩ | ⟨hle, _, idx, -, -, hidx', hl⟩ <;> rw [hl]
    · exact ⟨hsorted, by rw [hlen, hc.length_longTermWeights]; omega⟩
    · refine ⟨Sorted.eraseIdx hsorted idx, ?_⟩
      rw [List.length_eraseIdx_of_lt hidx', hlen, hc.length_longTermWeights]
      omega
  refine ⟨hlong.1, htip ▸ hlong.2, ?_⟩
  rw [hshort, htip, length_pushShortTermBlockWeight (by rw [hc.length_shortTermBlockWeights]; omega),
    hc.length_shortTermBlockWeights]
  omega

theorem Reaches.wellFormed {bs : BinarySearch} {c₀ c : BlockWeightsCache} (hrun : Reaches bs c₀ c)
    (h₀ : c₀.WellFormed) : c.WellFormed := by
  induction hrun with
  | refl => exact h₀
  | newBlockAdded _ hstep ih => exact ih.newBlockAdded hstep

/-- For every chain height, every store that answers range requests with one entry per
    height, and every run of in-order `new_block_added` calls that complete from the cache
    `init_from_chain_height` builds, with any weights: the long-term window is sorted,
    the two windows hold `min(tip_height + 1, LONG_TERM_WINDOW)` and
    `min(tip_height + 1, SHORT_TERM_WINDOW)` weights, so the slices the two medians are
    taken over are never empty. -/
theorem longTermWeights_sorted_of_reaches (bs : BinarySearch) {database : Database}
    (hdb : RangeComplete database) {chainHeight : Nat} {c₀ c : BlockWeightsCache}
    (hinit : initFromChainHeight chainHeight database = some (.ok c₀)) (hrun : Reaches bs c₀ c) :
    c.longTermWeights.Sorted (· ≤ ·) ∧
      c.longTermWeights.length = min (c.tipHeight + 1) longTermWindow ∧
      c.shortTermBlockWeights.length = min (c.tipHeight + 1) shortTermWindow ∧
      c.longTermWeights ≠ [] ∧ c.shortTermBlockWeights.mergeSort ≠ [] := by
  have hc := hrun.wellFormed (WellFormed.initFromChainHeight hdb hinit)
  refine ⟨hc.sorted, hc.length_longTermWeights, hc.length_shortTermBlockWeights,
    hc.longTermWeights_ne_nil, ?_⟩
  rw [← List.length_pos, List.length_mergeSort, List.length_pos]
  exact hc.shortTermBlockWeights_ne_nil

theorem longTermWeights_sorted_of_reaches_genesis :
    RangeComplete genesisChain.database ∧
      initFromChainHeight 1 genesisChain.database = some (.ok ⟨[0], [0], 0⟩) ∧
      Reaches .lowerBound ⟨[0], [0], 0⟩ ⟨[0, 5], [0, 7], 1⟩ ∧
      [0, 7].Sorted (· ≤ ·) ∧ [0, 7].length = min (1 + 1) longTermWindow ∧
      [0, 5].length = min (1 + 1) shortTermWindow ∧ [0, 7] ≠ [] ∧ [0, 5].mergeSort ≠ [] :=
  have hinit : initFromChainHeight 1 genesisChain.database = some (.ok ⟨[0], [0], 0⟩) := by
    simp [initFromChainHeight, getLongTermWeightInRange, getBlocksWeightInRange,
      getWeightsInRange, shortTermWindow, longTermWindow, checkedSub, genesisChain]
  have hrun : Reaches .lowerBound ⟨[0], [0], 0⟩ ⟨[0, 5], [0, 7], 1⟩ :=
    @Reaches.newBlockAdded .lowerBound _ _ _ 1 5 7 genesisChain.database (.refl _) rfl
  ⟨rangeComplete_chain _, hinit, hrun,
    longTermWeights_sorted_of_reaches .lowerBound (rangeComplete_chain _) hinit hrun⟩

/-! ## Section 5: What a well-formed cache computes -/

/-- Sorting the short-term window of a well-formed cache keeps it non-empty and keeps its
    values. -/
theorem WellFormed.mergeSort_shortTermBlockWeights {c : BlockWeightsCache} (hc : c.WellFormed)
    (hs : ∀ w ∈ c.shortTermBlockWeights, w < wordSize) :
    c.shortTermBlockWeights.mergeSort ≠ [] ∧ ∀ w ∈ c.shortTermBlockWeights.mergeSort, w < wordSize :=
  have hperm := List.mergeSort_perm c.shortTermBlockWeights (fun a b => decide (a ≤ b))
  ⟨fun h => hc.shortTermBlockWeights_ne_nil (List.Perm.eq_nil (h ▸ hperm.symm)),
    fun w hw => hs w (hperm.mem_iff.1 hw)⟩

/-- On a well-formed cache of `usize` weights, before `V10` the effective median is the
    reference median of the sorted short-term window, and from `V10` on the next block's
    long-term weight is the reference clamp of its weight whenever the code's products
    fit: the medians are never taken over an empty slice. -/
theorem WellFormed.medians {c : BlockWeightsCache} (hc : c.WellFormed)
    (hs : ∀ w ∈ c.shortTermBlockWeights, w < wordSize)
    (hl : ∀ w ∈ c.longTermWeights, w < wordSize) :
    (∀ hf : HardFork, hf < .V10 →
      c.effectiveMedianBlockWeight hf = some (referenceMedian c.shortTermBlockWeights.mergeSort)) ∧
    ∀ hf : HardFork, .V10 ≤ hf → ∀ blockWeight,
      c.nextBlockLongTermWeight hf blockWeight =
        if longTermArithmeticFits hf (longTermMedianOf hf c.longTermWeights) then
          some (max (min blockWeight (shortTermConstraint hf (longTermMedianOf hf c.longTermWeights)))
            (longTermWeightFloor hf (longTermMedianOf hf c.longTermWeights)))
        else none := by
  obtain ⟨hne, hsw⟩ := hc.mergeSort_shortTermBlockWeights hs
  refine ⟨fun hf hlt => ?_, fun hf hle blockWeight =>
    calculateBlockLongTermWeight_eq blockWeight hle hc.longTermWeights_ne_nil hl⟩
  rw [effectiveMedianBlockWeight, calculateEffectiveMedianBlockWeight, inRange_V1_V10,
    decide_eq_true hlt, if_pos rfl]
  exact median_eq_referenceMedian hne hsw

/-- The cache of three blocks of distinct weights, the short-term window out of order. -/
theorem wellFormed_threeBlocks :
    (⟨[3000, 1000, 2000], [1000, 2000, 3000], 2⟩ : BlockWeightsCache).WellFormed :=
  ⟨by decide, by simp [longTermWindow], by simp [shortTermWindow]⟩

/-- `WellFormed.medians` on three blocks of distinct weights, whose short-term window the
    effective median has to sort. -/
theorem WellFormed.medians_threeBlocks :
    (⟨[3000, 1000, 2000], [1000, 2000, 3000], 2⟩ : BlockWeightsCache).WellFormed ∧
      (∀ w ∈ [3000, 1000, 2000], w < wordSize) ∧ (∀ w ∈ [1000, 2000, 3000], w < wordSize) ∧
      (∀ hf : HardFork, hf < .V10 →
        (⟨[3000, 1000, 2000], [1000, 2000, 3000], 2⟩ : BlockWeightsCache).effectiveMedianBlockWeight hf =
          some (referenceMedian [3000, 1000, 2000].mergeSort)) ∧
      ∀ hf : HardFork, .V10 ≤ hf → ∀ blockWeight,
        (⟨[3000, 1000, 2000], [1000, 2000, 3000], 2⟩ : BlockWeightsCache).nextBlockLongTermWeight hf
            blockWeight =
          if longTermArithmeticFits hf (longTermMedianOf hf [1000, 2000, 3000]) then
            some (max (min blockWeight (shortTermConstraint hf (longTermMedianOf hf [1000, 2000, 3000])))
              (longTermWeightFloor hf (longTermMedianOf hf [1000, 2000, 3000])))
          else none :=
  have hs : ∀ w ∈ [3000, 1000, 2000], w < wordSize := by simp [wordSize]
  have hl : ∀ w ∈ [1000, 2000, 3000], w < wordSize := by simp [wordSize]
  ⟨wellFormed_threeBlocks, hs, hl, WellFormed.medians wellFormed_threeBlocks hs hl⟩

end BlockWeightsCache

end Cuprate
