import CuprateConsensus.HardForkState

/-! # Rebuilding the hard-fork state

    The state `init_from_chain_height` builds at height `h` and the state that `new_block`
    makes of it with block `h` against the same store are compared here. On a store that
    answers from a fixed chain both are the greedy loop run from `chainState`, the state
    that holds the version of the block below the height and the votes of the window;
    `newBlock_of_checkSetNewHf_chainState` shows that one `new_block` turns the loop's
    result at `h` into the loop's input at `h + 1`: the vote of block `h` enters the
    window and, once the window is full, the vote of block `h - window` leaves it.

    From that, on mainnet, one block fed to a freshly built state gives the state built
    one block higher, and a run of blocks carrying the scheduled version gives the state
    built at the height the run ends at. Section 5 follows every run of completed
    `new_block` calls, whatever the votes and the stores: on mainnet the state reports
    the scheduled fork after each of them.
-/

namespace Cuprate

namespace HardForkState

/-! ## Section 1: The window after one more block -/

theorem currentHardfork_eq_of_checkBlockVersionVote {s : HardForkState} {info : BlockHFInfo}
    (h : s.checkBlockVersionVote info = true) : s.currentHardfork = info.version := by
  simp only [checkBlockVersionVote, decide_eq_true_eq] at h
  exact h.1

/-- Below a full window the vote of the new block only joins the window. -/
theorem windowVotes_succ_perm_of_lt (chain : ChainData) {window height : Nat}
    (h : height < window) :
    (windowVotes chain window (height + 1)).Perm
      ((chain.hfInfo height).vote :: windowVotes chain window height) := by
  rw [windowVotes, window_succ_of_lt h, List.map_append]
  exact List.perm_append_singleton _ _

/-- Once the window is full, the vote of the new block joins it and the vote of the block
    `window` below it leaves. -/
theorem windowVotes_perm_of_le (chain : ChainData) {window height : Nat} (h : window ≤ height) :
    ((chain.hfInfo height).vote :: windowVotes chain window height).Perm
      ((chain.hfInfo (height - window)).vote :: windowVotes chain window (height + 1)) := by
  have hw := congrArg (List.map fun k => (chain.hfInfo k).vote) (window_append_of_le h)
  simp only [List.map_append, List.map_cons, List.map_nil] at hw
  exact (List.perm_append_singleton _ _).symm.trans (hw ▸ List.Perm.refl _)

/-- The eviction loop of `new_block` on a fixed chain: the window's votes plus the vote of
    block `height` become the votes of the window one block higher. -/
theorem removeVotes_chain (chain : ChainData) {window height : Nat} {v : HFVotes}
    (hv : v.votes = HFVotes.tally ((chain.hfInfo height).vote :: windowVotes chain window height)) :
    removeVotes chain.database height v
        (List.range' window ((windowVotes chain window height).length + 1 - window)) =
      some (.ok (), ⟨HFVotes.tally (windowVotes chain window (height + 1)),
        HFVotes.length_tally _⟩) := by
  rw [length_windowVotes]
  by_cases h : height < window
  · rw [show min height window + 1 - window = 0 by omega, List.range'_zero, removeVotes,
      HFVotes.eq_mk_tally (hv.trans (HFVotes.tally_perm (windowVotes_succ_perm_of_lt chain h).symm))]
  · have hle : window ≤ height := by omega
    have hperm := windowVotes_perm_of_le chain hle
    obtain ⟨v', hrem, hv'⟩ := HFVotes.removeVoteForHf_tally hv (hperm.mem_iff.2 (List.mem_cons_self _ _))
    rw [show min height window + 1 - window = 1 by omega, List.range'_one, removeVotes,
      checkedSub_of_le hle]
    simp only [ChainData.oneshot, ChainData.call_blockHFInfo, hrem, removeVotes]
    rw [HFVotes.eq_mk_tally (hv'.trans (HFVotes.tally_perm
      ((hperm.erase _).trans (by rw [List.erase_cons_head]))))]

/-! ## Section 2: One block on a fixed chain -/

/-- On a fixed chain, feeding block `height` with its vote to a state that holds the votes
    of the window below `height` completes the eviction loop, and leaves the state with the
    votes of the window one block higher for the loop of `check_set_new_hf`. -/
theorem newBlock_chain (chain : ChainData) {s : HardForkState} {height : Nat}
    (hv : s.votes.votes = HFVotes.tally (windowVotes chain s.config.window height))
    (hh : s.lastHeight + 1 = height) (hw : height + 1 < wordSize) :
    s.newBlock (chain.hfInfo height).vote height chain.database =
      ({ s with
          lastHeight := height
          votes := ⟨HFVotes.tally (windowVotes chain s.config.window (height + 1)),
            HFVotes.length_tally _⟩ } : HardForkState).checkSetNewHf.map fun s' => (.ok (), s') := by
  subst hh
  have hlen := length_windowVotes chain s.config.window (s.lastHeight + 1)
  obtain ⟨v₁, hadd, hv₁⟩ := HFVotes.addVoteForHf_tally hv (chain.hfInfo (s.lastHeight + 1)).vote
    (by omega)
  have htotal := HFVotes.totalVotes_tally hv₁ (by simp only [List.length_cons]; omega)
  rw [newBlock, if_neg (by omega), hadd]
  simp only [htotal, List.length_cons, removeVotes_chain chain hv₁,
    totalVotes_windowVotes chain _ hw]
  rw [if_neg (by rw [ne_eq, Option.some.injEq]; omega)]

/-- On a fixed chain, `new_block` with block `height` turns the state the loop made of
    `chainState` at `height` into `chainState` at `height + 1`, up to the loop that
    follows, provided block `height` carries the version the state reports. -/
theorem newBlock_of_checkSetNewHf_chainState {config : HardForkConfig} (chain : ChainData)
    {height : Nat} {S : HardForkState} (h1 : 1 ≤ height) (hw : height + 1 < wordSize)
    (hS : (chainState config chain height).checkSetNewHf = some S)
    (hversion : S.currentHardfork = (chain.hfInfo height).version) :
    S.newBlock (chain.hfInfo height).vote height chain.database =
      (chainState config chain (height + 1)).checkSetNewHf.map fun s' => (.ok (), s') := by
  obtain ⟨hlast, hcfg, hvotes⟩ := checkSetNewHf_frame hS
  have hnext := checkSetNewHf_nextFork hS rfl
  rw [newBlock_chain chain (by rw [hvotes, hcfg]; rfl) (by rw [hlast]; simp only [chainState]; omega) hw]
  congr
  obtain ⟨cur, next, cfg, votes, last⟩ := S
  simp only [chainState] at hcfg hversion hnext ⊢
  subst hcfg hversion hnext
  simp only [Nat.add_sub_cancel]

/-- On mainnet, for every window, chain store and chain height `h ≥ 1` below `2^64 - 1`:
    when block `h` passes the version check against the state built at `h`, feeding it
    with its vote completes, and gives exactly the state built at `h + 1`, which holds the
    tally of the votes of the window below `h + 1` and has last height `h`. -/
theorem newBlock_eq_initFromChainHeight {config : HardForkConfig}
    (hnet : config.network = .mainnet) (chain : ChainData) {h : Nat} (h1 : 1 ≤ h)
    (hw : h + 1 < wordSize) {S : HardForkState}
    (hS : initFromChainHeight config h chain.database = some (.ok S))
    (hcheck : S.checkBlockVersionVote (chain.hfInfo h) = true) :
    ∃ S', initFromChainHeight config (h + 1) chain.database = some (.ok S') ∧
      S.newBlock (chain.hfInfo h).vote h chain.database = some (.ok (), S') ∧
      S'.votes.votes = HFVotes.tally (windowVotes chain config.window (h + 1)) ∧
      S'.lastHeight = h := by
  obtain ⟨S₀, hloop, hinit⟩ := initFromChainHeight_chain_ok hnet chain h1 (by omega)
  obtain ⟨S', hS', hinit'⟩ := initFromChainHeight_chain_ok hnet chain (by omega) hw
  cases hS.symm.trans hinit
  obtain ⟨hlast, -, hvotes⟩ := checkSetNewHf_frame hS'
  refine ⟨S', hinit', ?_, by rw [hvotes]; rfl, hlast⟩
  rw [newBlock_of_checkSetNewHf_chainState chain h1 hw hloop
    (currentHardfork_eq_of_checkBlockVersionVote hcheck), hS']
  rfl

/-- `newBlock_eq_initFromChainHeight` on a chain of `V1` blocks, at its first block and at
    block `10081`, where the window of `main_net` is full and block `1` leaves it. -/
theorem newBlock_eq_initFromChainHeight_genesis :
    (∃ S, initFromChainHeight .mainNet 1 genesisChain.database = some (.ok S) ∧
      S.checkBlockVersionVote (genesisChain.hfInfo 1) = true ∧
      ∃ S', initFromChainHeight .mainNet (1 + 1) genesisChain.database = some (.ok S') ∧
        S.newBlock (genesisChain.hfInfo 1).vote 1 genesisChain.database = some (.ok (), S') ∧
        S'.votes.votes = HFVotes.tally (windowVotes genesisChain HardForkConfig.mainNet.window (1 + 1)) ∧
        S'.lastHeight = 1) ∧
    ∃ S, initFromChainHeight .mainNet 10081 genesisChain.database = some (.ok S) ∧
      S.checkBlockVersionVote (genesisChain.hfInfo 10081) = true ∧
      ∃ S', initFromChainHeight .mainNet (10081 + 1) genesisChain.database = some (.ok S') ∧
        S.newBlock (genesisChain.hfInfo 10081).vote 10081 genesisChain.database = some (.ok (), S') ∧
        S'.votes.votes =
          HFVotes.tally (windowVotes genesisChain HardForkConfig.mainNet.window (10081 + 1)) ∧
        S'.lastHeight = 10081 := by
  have hcheck {h : Nat} (h1 : 1 ≤ h) (h2 : h < 1009827) :
      ∃ S, initFromChainHeight .mainNet h genesisChain.database = some (.ok S) ∧
        S.checkBlockVersionVote (genesisChain.hfInfo h) = true := by
    obtain ⟨S, hinit, hcur, -⟩ := initFromChainHeight_genesisChain h1 h2
    exact ⟨S, hinit, by rw [checkBlockVersionVote, hcur]; exact decide_eq_true ⟨rfl, le_rfl⟩⟩
  obtain ⟨S, hinit, hS⟩ := hcheck le_rfl (by omega)
  obtain ⟨T, hinit', hT⟩ := hcheck (show 1 ≤ 10081 by omega) (by omega)
  have hnet : HardForkConfig.mainNet.network = .mainnet := rfl
  exact ⟨⟨S, hinit, hS, newBlock_eq_initFromChainHeight hnet genesisChain le_rfl
      (by rw [wordSize_eq]; omega) hinit hS⟩,
    T, hinit', hT, newBlock_eq_initFromChainHeight hnet genesisChain (by omega)
      (by rw [wordSize_eq]; omega) hinit' hT⟩

/-! ## Section 3: `init` -/

/-- On mainnet, `HardForkState::init` over a store answering from a fixed chain of height
    `1 ≤ h < 2^64` completes, whatever the chain holds, with last height `h - 1` and the
    votes of the window below `h`. It reports the later of the stored version of block
    `h - 1` and the scheduled fork for block `h`, and that fork's successor as the next:
    the loop raises a version behind the schedule and leaves one ahead of it. -/
theorem init_reports_scheduledFork {config : HardForkConfig} (hnet : config.network = .mainnet)
    (chain : ChainData) (h1 : 1 ≤ chain.chainHeight) (hw : chain.chainHeight < wordSize) :
    ∃ S, init config chain.database = some (.ok S) ∧
      S.currentHardfork =
        max (chain.hfInfo (chain.chainHeight - 1)).version (HardFork.scheduledFork chain.chainHeight) ∧
      S.nextHardfork = S.currentHardfork.nextFork ∧ S.lastHeight = chain.chainHeight - 1 ∧
      S.votes.votes = HFVotes.tally (windowVotes chain config.window chain.chainHeight) := by
  obtain ⟨S, hloop, hinit⟩ := initFromChainHeight_chain_ok hnet chain h1 hw
  obtain ⟨hlast, -, hvotes⟩ := checkSetNewHf_frame hloop
  have hcur : S.currentHardfork = max (chain.hfInfo (chain.chainHeight - 1)).version
      (HardFork.scheduledFork chain.chainHeight) := by
    rcases le_or_lt (chain.hfInfo (chain.chainHeight - 1)).version
      (HardFork.scheduledFork chain.chainHeight) with hle | hlt
    · rw [max_eq_right hle, checkSetNewHf_current hloop hnet rfl
        (by simpa only [chainState, Nat.sub_add_cancel h1] using hle)]
      simp only [chainState, Nat.sub_add_cancel h1]
    · have hstay := checkSetNewHf_of_ahead (s := chainState config chain chain.chainHeight) hnet rfl
        (by simpa only [chainState, Nat.sub_add_cancel h1] using hlt)
      rw [max_eq_left hlt.le, ← Option.some.inj (hstay.symm.trans hloop)]
      rfl
  simp only [chainState] at hlast
  exact ⟨S, hinit, hcur, checkSetNewHf_nextFork hloop rfl, hlast, by rw [hvotes]; rfl⟩

/-- `init_reports_scheduledFork` on a chain whose top block is at `V16`, ahead of the
    schedule at height `1`: the state stays at `V16`. -/
theorem init_reports_scheduledFork_v16Chain :
    1 ≤ v16Chain.chainHeight ∧ v16Chain.chainHeight < wordSize ∧
      ∃ S, init .mainNet v16Chain.database = some (.ok S) ∧
        S.currentHardfork = max (v16Chain.hfInfo (v16Chain.chainHeight - 1)).version
          (HardFork.scheduledFork v16Chain.chainHeight) ∧
        S.nextHardfork = S.currentHardfork.nextFork ∧ S.lastHeight = v16Chain.chainHeight - 1 ∧
        S.votes.votes = HFVotes.tally (windowVotes v16Chain HardForkConfig.mainNet.window
          v16Chain.chainHeight) ∧
        S.currentHardfork = .V16 := by
  have hw : v16Chain.chainHeight < wordSize := by rw [wordSize_eq]; decide
  obtain ⟨S, hinit, hcur, hnext, hlast, hvotes⟩ := init_reports_scheduledFork
    (show HardForkConfig.mainNet.network = .mainnet from rfl) v16Chain le_rfl hw
  exact ⟨le_rfl, hw, S, hinit, hcur, hnext, hlast, hvotes, hcur.trans (by decide)⟩

/-! ## Section 4: Runs of blocks -/

/-- Feed blocks `height, height + 1, …` of a fixed chain to `new_block`, `n` of them, each
    with its stored vote, as the caller that keeps the state in step with the chain does;
    the run stops at the first call that fails. -/
def feedBlocks (chain : ChainData) :
    HardForkState → Nat → Nat → Option (Except ConsensusError HardForkState)
  | s, _, 0 => some (.ok s)
  | s, height, n + 1 =>
    match s.newBlock (chain.hfInfo height).vote height chain.database with
    | none => none
    | some (.error e, _) => some (.error e)
    | some (.ok (), s') => feedBlocks chain s' (height + 1) n

/-- On mainnet, over a chain whose block `h - 1` is not ahead of the schedule and whose
    block `h` carries the scheduled version, the states built at `h` and at `h + 1` exist,
    and feeding block `h` to the first completes into the second. -/
theorem newBlock_scheduled_step {config : HardForkConfig} (hnet : config.network = .mainnet)
    (chain : ChainData) {h : Nat} (h1 : 1 ≤ h) (hw : h + 1 < wordSize)
    (hahead : (chain.hfInfo (h - 1)).version ≤ HardFork.scheduledFork h)
    (hsched : (chain.hfInfo h).version = HardFork.scheduledFork h) :
    ∃ S S', initFromChainHeight config h chain.database = some (.ok S) ∧
      initFromChainHeight config (h + 1) chain.database = some (.ok S') ∧
      S.newBlock (chain.hfInfo h).vote h chain.database = some (.ok (), S') ∧
      S.lastHeight + 1 = h ∧ S'.lastHeight = h := by
  obtain ⟨S, hloop, hinit⟩ := initFromChainHeight_chain_ok hnet chain h1 (by omega)
  obtain ⟨S', hloop', hinit'⟩ := initFromChainHeight_chain_ok hnet chain (by omega) hw
  have hcur := checkSetNewHf_current hloop hnet rfl
    (by simpa only [chainState, Nat.sub_add_cancel h1] using hahead)
  have hlast := (checkSetNewHf_frame hloop).1
  have hlast' := (checkSetNewHf_frame hloop').1
  simp only [chainState, Nat.sub_add_cancel h1, Nat.add_sub_cancel] at hcur hlast hlast'
  refine ⟨S, S', hinit, hinit', ?_, by omega, hlast'⟩
  rw [newBlock_of_checkSetNewHf_chainState chain h1 hw hloop (hcur.trans hsched.symm), hloop']
  rfl

/-- On mainnet, on a chain whose every block carries the version the schedule gives its
    height, feeding `n` blocks with their votes to the state built at `h` completes every
    call and ends in exactly the state built at `h + n`. -/
theorem feedBlocks_initFromChainHeight {config : HardForkConfig} (hnet : config.network = .mainnet)
    (chain : ChainData) (hsched : ∀ k, (chain.hfInfo k).version = HardFork.scheduledFork k)
    (n : Nat) : ∀ {h : Nat}, 1 ≤ h → h + n < wordSize →
      ∃ S S', initFromChainHeight config h chain.database = some (.ok S) ∧
        initFromChainHeight config (h + n) chain.database = some (.ok S') ∧
        feedBlocks chain S h n = some (.ok S') := by
  induction n with
  | zero =>
    intro h h1 hw
    obtain ⟨S, -, hinit⟩ := initFromChainHeight_chain_ok hnet chain h1 hw
    exact ⟨S, S, hinit, hinit, rfl⟩
  | succ n ih =>
    intro h h1 hw
    obtain ⟨S, S₁, hinit, hinit₁, hstep, -⟩ := newBlock_scheduled_step hnet chain h1 (by omega)
      (hsched (h - 1) ▸ HardFork.scheduledFork_mono (Nat.sub_le _ _)) (hsched h)
    obtain ⟨S₁', S', hinit₁', hend, hfeed⟩ := ih (h := h + 1) (by omega) (by omega)
    cases hinit₁.symm.trans hinit₁'
    refine ⟨S, S', hinit, by rwa [Nat.add_right_comm, Nat.add_assoc] at hend, ?_⟩
    rw [feedBlocks, hstep]
    exact hfeed

/-- A chain whose every block carries the scheduled version and votes for it. -/
def scheduledChain : ChainData :=
  ⟨0, fun _ => ⟨0, 0⟩, fun k => ⟨HardFork.scheduledFork k, HardFork.scheduledFork k⟩⟩

theorem feedBlocks_initFromChainHeight_scheduledChain :
    (∀ k, (scheduledChain.hfInfo k).version = HardFork.scheduledFork k) ∧ 1 ≤ 1 ∧
      1 + 3 < wordSize ∧
      ∃ S S', initFromChainHeight .mainNet 1 scheduledChain.database = some (.ok S) ∧
        initFromChainHeight .mainNet (1 + 3) scheduledChain.database = some (.ok S') ∧
        feedBlocks scheduledChain S 1 3 = some (.ok S') :=
  have hsched : ∀ k, (scheduledChain.hfInfo k).version = HardFork.scheduledFork k := fun _ => rfl
  have hw : 1 + 3 < wordSize := by simp [wordSize]
  ⟨hsched, le_rfl, hw, feedBlocks_initFromChainHeight
    (show HardForkConfig.mainNet.network = .mainnet from rfl) scheduledChain hsched 3 le_rfl hw⟩

/-! ## Section 5: Every run reports the scheduled fork -/

/-- The states that in-order `new_block` calls, each completing, lead to from `s`. -/
inductive Reaches : HardForkState → HardForkState → Prop
  | refl (s : HardForkState) : Reaches s s
  | newBlock {s t t' : HardForkState} {vote : HardFork} {height : Nat} {database : Database} :
      Reaches s t → t.newBlock vote height database = some (.ok (), t') → Reaches s t'

/-- A completed `new_block` keeps the state on schedule and its configuration. -/
theorem Scheduled.newBlock {s s' : HardForkState} {vote : HardFork} {height : Nat}
    {database : Database} (hs : s.Scheduled) (hnet : s.config.network = .mainnet)
    (h : s.newBlock vote height database = some (.ok (), s')) :
    s'.Scheduled ∧ s'.config = s.config := by
  obtain ⟨-, votes, h⟩ := newBlock_ok h
  refine ⟨scheduled_of_checkSetNewHf h hnet hs.2 ?_, (checkSetNewHf_frame h).2.1⟩
  exact hs.1 ▸ HardFork.scheduledFork_mono (Nat.le_succ _)

theorem Reaches.scheduled {s₀ s : HardForkState} (hrun : Reaches s₀ s)
    (hnet : s₀.config.network = .mainnet) (h₀ : s₀.Scheduled) :
    s.Scheduled ∧ s.config = s₀.config := by
  induction hrun with
  | refl => exact ⟨h₀, rfl⟩
  | newBlock _ hstep ih =>
    obtain ⟨hs, hcfg⟩ := ih
    obtain ⟨hs', hcfg'⟩ := hs.newBlock (hcfg ▸ hnet) hstep
    exact ⟨hs', hcfg'.trans hcfg⟩

/-- On mainnet, the state `init_from_chain_height` builds, and every state that in-order
    `new_block` calls lead to from it, report the fork the schedule gives the next block
    and its successor, whatever the votes; provided the stored version of the block below
    the chain height is not ahead of the schedule. -/
theorem currentHardfork_eq_scheduledFork {config : HardForkConfig}
    (hnet : config.network = .mainnet) {chainHeight : Nat} {database : Database}
    {s₀ s : HardForkState}
    (hversion : ∀ hfInfo, database.call (.blockHFInfo (chainHeight - 1)) = .ok (.blockHFInfo hfInfo) →
      hfInfo.version ≤ HardFork.scheduledFork chainHeight)
    (hinit : initFromChainHeight config chainHeight database = some (.ok s₀))
    (hrun : Reaches s₀ s) :
    s.currentHardfork = HardFork.scheduledFork (s.lastHeight + 1) ∧
      s.nextHardfork = s.currentHardfork.nextFork := by
  obtain ⟨h1, hfInfo, votes, hcall, hloop⟩ := initFromChainHeight_ok hinit
  have h₀ := scheduled_of_checkSetNewHf hloop hnet rfl
    (by simpa [Nat.sub_add_cancel h1] using hversion hfInfo hcall)
  have hcfg := (checkSetNewHf_frame hloop).2.1
  exact (hrun.scheduled (hcfg ▸ hnet) h₀).1

/-- `currentHardfork_eq_scheduledFork` across the activation of `V2`: on the chain of the
    scheduled versions, the state built at `1009826` is at `V1`, and feeding it block
    `1009826` completes into a state at `V2`. -/
theorem currentHardfork_eq_scheduledFork_V2 :
    ∃ s₀ s₁, initFromChainHeight .mainNet 1009826 scheduledChain.database = some (.ok s₀) ∧
      (∀ hfInfo, scheduledChain.database.call (.blockHFInfo (1009826 - 1)) =
        .ok (.blockHFInfo hfInfo) → hfInfo.version ≤ HardFork.scheduledFork 1009826) ∧
      s₀.newBlock (scheduledChain.hfInfo 1009826).vote 1009826 scheduledChain.database =
        some (.ok (), s₁) ∧
      s₀.currentHardfork = HardFork.scheduledFork (s₀.lastHeight + 1) ∧
      s₁.currentHardfork = HardFork.scheduledFork (s₁.lastHeight + 1) ∧
      s₁.nextHardfork = s₁.currentHardfork.nextFork ∧
      s₀.currentHardfork = .V1 ∧ s₁.currentHardfork = .V2 := by
  have hversion : ∀ hfInfo, scheduledChain.database.call (.blockHFInfo (1009826 - 1)) =
      .ok (.blockHFInfo hfInfo) → hfInfo.version ≤ HardFork.scheduledFork 1009826 := by
    rintro _ ⟨⟩
    exact HardFork.scheduledFork_mono (Nat.sub_le _ _)
  obtain ⟨s₀, s₁, hinit, -, hstep, hl₀, hl₁⟩ := newBlock_scheduled_step
    (show HardForkConfig.mainNet.network = .mainnet from rfl) scheduledChain (by omega)
    (by rw [wordSize_eq]; omega) (hversion _ rfl) rfl
  have h₀ := currentHardfork_eq_scheduledFork rfl hversion hinit (.refl s₀)
  have h₁ := currentHardfork_eq_scheduledFork rfl hversion hinit (.newBlock (.refl s₀) hstep)
  refine ⟨s₀, s₁, hinit, hversion, hstep, h₀.1, h₁.1, h₁.2, ?_, ?_⟩
  · rw [h₀.1, hl₀]
    decide
  · rw [h₁.1, hl₁]
    decide

end HardForkState

end Cuprate
