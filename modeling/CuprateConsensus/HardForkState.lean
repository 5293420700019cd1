import CuprateConsensus.HFVotes
import CuprateConsensus.Database

/-! # The hard-fork state

    `HardForkState` of `hardforks.rs`: the current fork, the next one, the vote
    counters of the last `window` blocks and the height of the last block seen. It is
    built once from the chain store (`initFromChainHeight`) and then fed one block at a
    time (`newBlock`); after both, `check_set_new_hf` activates forks greedily while
    the next fork's height has been reached and its votes are in.

    Section 3 says once what a pass of that loop can do (`checkSetNewHf_cases`) and
    packages the induction along its passes (`checkSetNewHf_induction`); every fact
    about the loop is derived from these two. Section 4 runs `init_from_chain_height`
    over a fixed chain, and Section 5 proves that on mainnet the loop raises the state to
    the scheduled fork and no further; the modules after this one carry both over runs
    of `new_block`.
-/

namespace Cuprate

/-! ## Section 1: Configuration and state -/

/-- `DEFAULT_WINDOW_SIZE`: the supermajority window check length, a week of blocks. -/
def defaultWindowSize : Nat := 10080

/-- Configuration for hard-forks. -/
structure HardForkConfig where
  /-- The network we are on. -/
  network : Network
  /-- The amount of votes we are taking into account to decide on a fork activation. -/
  window : Nat

/-- `HardForkConfig::main_net`. -/
def HardForkConfig.mainNet : HardForkConfig :=
  ⟨.mainnet, defaultWindowSize⟩

/-- A struct that keeps track of the current hard-fork and current votes. -/
structure HardForkState where
  currentHardfork : HardFork
  nextHardfork : Option HardFork
  config : HardForkConfig
  votes : HFVotes
  lastHeight : Nat

namespace HardForkState

/-! ## Section 2: Operations -/

/-- `HardForkState::set_hf`. -/
def setHf (s : HardForkState) (newHf : HardFork) : HardForkState :=
  { s with nextHardfork := newHf.nextFork, currentHardfork := newHf }

/-- How many forks the loop of `check_set_new_hf` can still activate. -/
def forksLeft (s : HardForkState) : Nat :=
  (s.nextHardfork.map fun hf => 17 - hf.toU8).getD 0

theorem forksLeft_setHf_lt {s : HardForkState} {newHf : HardFork}
    (h : s.nextHardfork = some newHf) : (s.setHf newHf).forksLeft < s.forksLeft := by
  have key : ∀ hf : HardFork, (hf.nextFork.map fun n => 17 - n.toU8).getD 0 < 17 - hf.toU8 := by
    decide
  simpa only [forksLeft, setHf, h, Option.map_some', Option.getD_some] using key newHf

/-- `HardForkState::check_set_new_hf`: while there is a next fork, activate it if its
    height has been reached and it has the votes it needs, else stop. -/
def checkSetNewHf (s : HardForkState) : Option HardForkState :=
  match _h : s.nextHardfork with
  | none => some s
  | some newHf =>
    match newHf.forkHeight s.config.network with
    | none => none
    | some forkHeight =>
      if forkHeight ≤ s.lastHeight + 1 then
        match s.votes.votesForHf newHf, newHf.votesNeeded s.config.network s.config.window with
        | some votes, some needed =>
          if needed ≤ votes then checkSetNewHf (s.setHf newHf) else some s
        | _, _ => none
      else some s
termination_by s.forksLeft
decreasing_by exact forksLeft_setHf_lt ‹_›

/-- `HardForkState::check_block_version_vote`. -/
def checkBlockVersionVote (s : HardForkState) (blockHfInfo : BlockHFInfo) : Bool :=
  decide (s.currentHardfork = blockHfInfo.version ∧ s.currentHardfork ≤ blockHfInfo.vote)

/-- `get_votes_in_range`: tally the votes of the blocks the store returns for the range. -/
def getVotesInRange (database : Database) (start stop : Nat) :
    Option (Except ConsensusError HFVotes) :=
  match database.oneshot (.blockHfInfoInRange start stop) with
  | .error e => some (.error e)
  | .ok (.blockHfInfoInRange voteList) =>
    (voteList.foldlM (fun (votes : HFVotes) (hfInfo : BlockHFInfo) => votes.addVoteForHf hfInfo.vote)
      HFVotes.default).map .ok
  | .ok _ => none

/-- `HardForkState::init_from_chain_height`. `chain_height - 1` is computed once the
    store is ready, and panics on an empty chain. -/
def initFromChainHeight (config : HardForkConfig) (chainHeight : Nat) (database : Database) :
    Option (Except ConsensusError HardForkState) :=
  match getVotesInRange database (chainHeight - config.window) chainHeight with
  | none => none
  | some (.error e) => some (.error e)
  | some (.ok votes) =>
    if config.window < chainHeight ∧ votes.totalVotes ≠ some config.window then none
    else
      match database.ready with
      | .error e => some (.error e)
      | .ok () =>
        match checkedSub chainHeight 1 with
        | none => none
        | some lastHeight =>
          match database.call (.blockHFInfo lastHeight) with
          | .error e => some (.error e)
          | .ok (.blockHFInfo hfInfo) =>
            (({ config, currentHardfork := hfInfo.version,
                nextHardfork := hfInfo.version.nextFork, votes, lastHeight } :
                HardForkState).checkSetNewHf).map .ok
          | .ok _ => none

/-- `HardForkState::init`: read the chain height, then build the state there. -/
def init (config : HardForkConfig) (database : Database) :
    Option (Except ConsensusError HardForkState) :=
  match database.oneshot .chainHeight with
  | .error e => some (.error e)
  | .ok (.chainHeight chainHeight) => initFromChainHeight config chainHeight database
  | .ok _ => none

/-- The `for` loop of `new_block`: for each offset, fetch the block `height - offset`,
    which has left the window, and remove its vote. An error ends the loop with the
    counters as they are. -/
def removeVotes (database : Database) (height : Nat) (votes : HFVotes) :
    List Nat → Option (Except ConsensusError Unit × HFVotes)
  | [] => some (.ok (), votes)
  | offset :: offsets =>
    match checkedSub height offset with
    | none => none
    | some heightToRemove =>
      match database.oneshot (.blockHFInfo heightToRemove) with
      | .error e => some (.error e, votes)
      | .ok (.blockHFInfo hfInfo) =>
        match votes.removeVoteForHf hfInfo.vote with
        | none => none
        | some votes => removeVotes database height votes offsets
      | .ok _ => none

/-- `HardForkState::new_block`. The state is returned with the result, since on an
    error `self` keeps what was written to it before. -/
def newBlock (s : HardForkState) (vote : HardFork) (height : Nat) (database : Database) :
    Option (Except ConsensusError Unit × HardForkState) :=
  if s.lastHeight + 1 ≠ height then none
  else
    match s.votes.addVoteForHf vote with
    | none => none
    | some votes =>
      match votes.totalVotes with
      | none => none
      | some total =>
        match removeVotes database height votes
            (List.range' s.config.window (total - s.config.window)) with
        | none => none
        | some (.error e, votes) => some (.error e, { s with lastHeight := s.lastHeight + 1, votes })
        | some (.ok (), votes) =>
          if s.config.window < height ∧ votes.totalVotes ≠ some s.config.window then none
          else (({ s with lastHeight := s.lastHeight + 1, votes } : HardForkState).checkSetNewHf).map
            fun s' => (.ok (), s')

/-! ## Section 3: One pass of `check_set_new_hf` -/

/-- The next fork `newHf` is activated: its height has been reached and its votes are in. -/
def Activates (s : HardForkState) (newHf : HardFork) : Prop :=
  ∃ forkHeight, newHf.forkHeight s.config.network = some forkHeight ∧
    forkHeight ≤ s.lastHeight + 1 ∧
    ∃ votes needed, s.votes.votesForHf newHf = some votes ∧
      newHf.votesNeeded s.config.network s.config.window = some needed ∧ needed ≤ votes

/-- The next fork `newHf` is left for later: its height has not been reached, or it
    lacks votes. -/
def Waits (s : HardForkState) (newHf : HardFork) : Prop :=
  ∃ forkHeight, newHf.forkHeight s.config.network = some forkHeight ∧
    (s.lastHeight + 1 < forkHeight ∨
      ∃ votes needed, s.votes.votesForHf newHf = some votes ∧
        newHf.votesNeeded s.config.network s.config.window = some needed ∧ votes < needed)

/-- What one pass of the loop can do: stop where it is, with no next fork or a next
    fork that waits, or activate the next fork and go on from there. -/
theorem checkSetNewHf_cases {s s' : HardForkState} (h : s.checkSetNewHf = some s') :
    (s' = s ∧ (s.nextHardfork = none ∨ ∃ newHf, s.nextHardfork = some newHf ∧ s.Waits newHf)) ∨
      ∃ newHf, s.nextHardfork = some newHf ∧ s.Activates newHf ∧
        (s.setHf newHf).checkSetNewHf = some s' := by
  rw [checkSetNewHf] at h
  split at h
  · exact .inl ⟨(Option.some.inj h).symm, .inl ‹_›⟩
  · rename_i newHf hn
    split at h
    · cases h
    · rename_i forkHeight hfh
      split at h
      · split at h
        · rename_i votes needed hv hnd
          split at h
          · exact .inr ⟨newHf, hn, ⟨forkHeight, hfh, ‹_›, votes, needed, hv, hnd, ‹_›⟩, h⟩
          · exact .inl ⟨(Option.some.inj h).symm,
              .inr ⟨newHf, hn, forkHeight, hfh, .inr ⟨votes, needed, hv, hnd, by omega⟩⟩⟩
        · cases h
      · exact .inl ⟨(Option.some.inj h).symm, .inr ⟨newHf, hn, forkHeight, hfh, .inl (by omega)⟩⟩

/-- Induction along the passes of the loop: a relation that holds where the loop stops
    and is carried back over each activation holds between any state and the state the
    loop ends in. -/
theorem checkSetNewHf_induction (P : HardForkState → HardForkState → Prop)
    (stop : ∀ s, (s.nextHardfork = none ∨ ∃ newHf, s.nextHardfork = some newHf ∧ s.Waits newHf) →
      P s s)
    (activate : ∀ s newHf s', s.nextHardfork = some newHf → s.Activates newHf →
      P (s.setHf newHf) s' → P s s') :
    ∀ s s', s.checkSetNewHf = some s' → P s s' := by
  intro s
  generalize hk : s.forksLeft = k
  induction k using Nat.strong_induction_on generalizing s with
  | _ k ih =>
    intro s' h
    rcases checkSetNewHf_cases h with ⟨rfl, hstop⟩ | ⟨newHf, hn, hact, hrec⟩
    · exact stop _ hstop
    · exact activate s newHf s' hn hact (ih _ (hk ▸ forksLeft_setHf_lt hn) _ rfl s' hrec)

/-- The loop only moves the current and next fork. -/
theorem checkSetNewHf_frame {s s' : HardForkState} (h : s.checkSetNewHf = some s') :
    s'.lastHeight = s.lastHeight ∧ s'.config = s.config ∧ s'.votes = s.votes :=
  checkSetNewHf_induction (fun s s' => s'.lastHeight = s.lastHeight ∧ s'.config = s.config ∧
    s'.votes = s.votes) (fun _ _ => ⟨rfl, rfl, rfl⟩) (fun _ _ _ _ _ ih => ih) s s' h

/-- The loop keeps the next fork the successor of the current one. -/
theorem checkSetNewHf_nextFork {s s' : HardForkState} (h : s.checkSetNewHf = some s')
    (hn : s.nextHardfork = s.currentHardfork.nextFork) :
    s'.nextHardfork = s'.currentHardfork.nextFork :=
  checkSetNewHf_induction (fun s s' => s.nextHardfork = s.currentHardfork.nextFork →
    s'.nextHardfork = s'.currentHardfork.nextFork) (fun _ _ h => h)
    (fun _ _ _ _ _ ih _ => ih rfl) s s' h hn

/-- On mainnet no vote is needed, so the loop never panics once every vote count it may
    read is in range. -/
theorem checkSetNewHf_ne_none {s : HardForkState} (hnet : s.config.network = .mainnet)
    (hv : ∀ hf, (s.votes.votesForHf hf).isSome) : s.checkSetNewHf ≠ none := by
  generalize hk : s.forksLeft = k
  induction k using Nat.strong_induction_on generalizing s with
  | _ k ih =>
    rw [checkSetNewHf]
    split
    · simp
    · rename_i newHf hn
      simp only [HardFork.forkHeight, hnet]
      split_ifs
      · obtain ⟨votes, hvotes⟩ := Option.isSome_iff_exists.1 (hv newHf)
        simp only [hvotes, HardFork.votesNeeded_eq_zero, Nat.zero_le, if_true]
        exact ih _ (hk ▸ forksLeft_setHf_lt hn) hnet hv rfl
      · simp

/-! ## Section 4: What a completed call did -/

/-- A completed `init_from_chain_height` read the version of the block below the chain
    height and ran the loop from it, its successor, and the votes it tallied. -/
theorem initFromChainHeight_ok {config : HardForkConfig} {chainHeight : Nat}
    {database : Database} {s : HardForkState}
    (h : initFromChainHeight config chainHeight database = some (.ok s)) :
    1 ≤ chainHeight ∧ ∃ hfInfo votes,
      database.call (.blockHFInfo (chainHeight - 1)) = .ok (.blockHFInfo hfInfo) ∧
      ({ config, currentHardfork := hfInfo.version, nextHardfork := hfInfo.version.nextFork,
          votes, lastHeight := chainHeight - 1 } : HardForkState).checkSetNewHf = some s := by
  unfold initFromChainHeight at h
  split at h <;> try cases h
  rename_i votes _
  split_ifs at h
  split at h <;> try cases h
  split at h <;> try cases h
  rename_i lastHeight hsub
  obtain ⟨h1, rfl⟩ := checkedSub_eq_some.1 hsub
  split at h <;> try cases h
  rename_i hfInfo hcall
  obtain ⟨s'', hs'', hok⟩ := Option.map_eq_some'.1 h
  cases hok
  exact ⟨h1, hfInfo, votes, hcall, hs''⟩

/-- A completed `new_block` was given the next height, and ran the loop from the state
    with that height and the updated counters. -/
theorem newBlock_ok {s s' : HardForkState} {vote : HardFork} {height : Nat} {database : Database}
    (h : s.newBlock vote height database = some (.ok (), s')) :
    height = s.lastHeight + 1 ∧ ∃ votes,
      ({ s with lastHeight := s.lastHeight + 1, votes } : HardForkState).checkSetNewHf = some s' := by
  unfold newBlock at h
  split_ifs at h with hh
  split at h <;> try cases h
  split at h <;> try cases h
  split at h <;> try cases h
  rename_i votes _
  split_ifs at h
  obtain ⟨s'', hs'', hok⟩ := Option.map_eq_some'.1 h
  cases hok
  exact ⟨by omega, votes, hs''⟩

/-! ### Initialising from a fixed chain -/

/-- The votes of the blocks of a window, in chain order. -/
def windowVotes (chain : ChainData) (window height : Nat) : List HardFork :=
  (Cuprate.window window height).map fun k => (chain.hfInfo k).vote

theorem length_windowVotes (chain : ChainData) (window height : Nat) :
    (windowVotes chain window height).length = min height window := by
  rw [windowVotes, List.length_map, length_window]

/-- The state `init_from_chain_height` runs its loop from on a fixed chain: the version of
    the block below the chain height, its successor, and the votes of the window. -/
def chainState (config : HardForkConfig) (chain : ChainData) (chainHeight : Nat) : HardForkState where
  currentHardfork := (chain.hfInfo (chainHeight - 1)).version
  nextHardfork := (chain.hfInfo (chainHeight - 1)).version.nextFork
  config := config
  votes := ⟨HFVotes.tally (windowVotes chain config.window chainHeight), HFVotes.length_tally _⟩
  lastHeight := chainHeight - 1

theorem foldlM_addVoteForHf (L : List BlockHFInfo) :
    ∀ {v : HFVotes} {M : List HardFork}, v.votes = HFVotes.tally M →
      M.length + L.length < wordSize →
      ∃ v', L.foldlM (fun (votes : HFVotes) (hfInfo : BlockHFInfo) => votes.addVoteForHf hfInfo.vote) v =
          some v' ∧ v'.votes = HFVotes.tally (M ++ L.map (·.vote)) := by
  induction L with
  | nil => exact fun hv _ => ⟨_, rfl, by simpa using hv⟩
  | cons i L ih =>
    intro v M hv hlen
    simp only [List.length_cons] at hlen
    obtain ⟨v₁, h₁, hv₁⟩ := HFVotes.addVoteForHf_tally hv i.vote (by omega)
    obtain ⟨v₂, h₂, hv₂⟩ := ih hv₁ (by simp only [List.length_cons]; omega)
    refine ⟨v₂, by simpa [h₁] using h₂, ?_⟩
    rw [hv₂]
    exact HFVotes.tally_perm (by simp [List.perm_middle.symm])

/-- On a fixed chain, `get_votes_in_range` over a window tallies the window's votes. -/
theorem getVotesInRange_window (chain : ChainData) (window : Nat) {height : Nat}
    (hw : height < wordSize) :
    getVotesInRange chain.database (height - window) height =
      some (.ok ⟨HFVotes.tally (windowVotes chain window height), HFVotes.length_tally _⟩) := by
  obtain ⟨v, hv, hvotes⟩ := foldlM_addVoteForHf
    ((List.range' (height - window) (height - (height - window))).map chain.hfInfo)
    (v := HFVotes.default) (M := []) rfl
    (by simp only [List.length_nil, List.length_map, List.length_range']; omega)
  rw [List.nil_append, List.map_map] at hvotes
  simp only [getVotesInRange, ChainData.oneshot, ChainData.call_blockHfInfoInRange, hv,
    Option.map_some', HFVotes.eq_mk_tally hvotes]
  rfl

theorem totalVotes_windowVotes (chain : ChainData) (window : Nat) {height : Nat}
    (hw : height < wordSize) :
    (⟨HFVotes.tally (windowVotes chain window height), HFVotes.length_tally _⟩ : HFVotes).totalVotes =
      some (min height window) := by
  rw [HFVotes.totalVotes_tally rfl (by rw [length_windowVotes]; omega), length_windowVotes]

/-- On a fixed chain, `init_from_chain_height` runs the loop from `chainState`. -/
theorem initFromChainHeight_chain (config : HardForkConfig) (chain : ChainData) {chainHeight : Nat}
    (h1 : 1 ≤ chainHeight) (hw : chainHeight < wordSize) :
    initFromChainHeight config chainHeight chain.database =
      (chainState config chain chainHeight).checkSetNewHf.map .ok := by
  unfold initFromChainHeight
  rw [getVotesInRange_window chain config.window hw]
  dsimp only
  rw [if_neg (by rw [totalVotes_windowVotes chain _ hw, ne_eq, Option.some.injEq]; omega)]
  simp only [ChainData.database_ready, checkedSub_of_le h1, ChainData.call_blockHFInfo]
  rfl

/-- A chain state of a chain below `2^64` blocks has every vote count in range. -/
theorem votesForHf_chainState_isSome (config : HardForkConfig) (chain : ChainData)
    {height : Nat} (hw : height < wordSize) (hf : HardFork) :
    ((chainState config chain height).votes.votesForHf hf).isSome := by
  rw [HFVotes.votesForHf_tally rfl (by rw [length_windowVotes]; omega)]
  rfl

/-- On mainnet and a fixed chain, `init_from_chain_height` completes at every height. -/
theorem initFromChainHeight_chain_ok {config : HardForkConfig} (hnet : config.network = .mainnet)
    (chain : ChainData) {chainHeight : Nat} (h1 : 1 ≤ chainHeight) (hw : chainHeight < wordSize) :
    ∃ S, (chainState config chain chainHeight).checkSetNewHf = some S ∧
      initFromChainHeight config chainHeight chain.database = some (.ok S) := by
  obtain ⟨S, hS⟩ := Option.ne_none_iff_exists'.1
    (checkSetNewHf_ne_none hnet (votesForHf_chainState_isSome config chain hw))
  exact ⟨S, hS, by rw [initFromChainHeight_chain config chain h1 hw, hS]; rfl⟩

/-! ## Section 5: On mainnet the state reports the scheduled fork -/

/-- The state reports the fork the mainnet schedule gives the next block, and its
    successor as the next fork. -/
def Scheduled (s : HardForkState) : Prop :=
  s.currentHardfork = HardFork.scheduledFork (s.lastHeight + 1) ∧
    s.nextHardfork = s.currentHardfork.nextFork

/-- On mainnet the loop raises a fork at or below the schedule to the schedule: every
    fork whose height is reached is activated, since no vote is needed, and none
    beyond. -/
theorem checkSetNewHf_current {s s' : HardForkState} (h : s.checkSetNewHf = some s')
    (hnet : s.config.network = .mainnet) (hn : s.nextHardfork = s.currentHardfork.nextFork)
    (hle : s.currentHardfork ≤ HardFork.scheduledFork (s.lastHeight + 1)) :
    s'.currentHardfork = HardFork.scheduledFork (s.lastHeight + 1) := by
  refine checkSetNewHf_induction (fun s s' => s.config.network = .mainnet →
      s.nextHardfork = s.currentHardfork.nextFork →
      s.currentHardfork ≤ HardFork.scheduledFork (s.lastHeight + 1) →
      s'.currentHardfork = HardFork.scheduledFork (s.lastHeight + 1)) ?_ ?_ s s' h hnet hn hle
  · intro s hstop hnet hn hle
    refine le_antisymm hle ?_
    rcases hstop with hnone | ⟨newHf, hsome, forkHeight, hfh, hwait⟩
    · rw [hn, HardFork.nextFork_eq_none_iff] at hnone
      rw [hnone]
      exact HardFork.le_V16 _
    · simp only [HardFork.forkHeight, hnet, Option.some.injEq] at hfh
      subst hfh
      have hlt : s.lastHeight + 1 < newHf.mainnetForkHeight := by
        rcases hwait with hlt | ⟨votes, needed, -, hnd, hlt⟩
        · exact hlt
        · rw [HardFork.votesNeeded_eq_zero, Option.some.injEq] at hnd
          omega
      rw [hn] at hsome
      exact (HardFork.lt_of_nextFork hsome).1
        (lt_of_not_le fun hle' => absurd (HardFork.le_scheduledFork_iff.1 hle') (by omega))
  · rintro s newHf s' - ⟨forkHeight, hfh, hle, -⟩ ih hnet - -
    simp only [HardFork.forkHeight, hnet, Option.some.injEq] at hfh
    subst hfh
    exact ih hnet rfl (HardFork.le_scheduledFork_iff.2 hle)

theorem scheduled_of_checkSetNewHf {s s' : HardForkState} (h : s.checkSetNewHf = some s')
    (hnet : s.config.network = .mainnet) (hn : s.nextHardfork = s.currentHardfork.nextFork)
    (hle : s.currentHardfork ≤ HardFork.scheduledFork (s.lastHeight + 1)) : s'.Scheduled :=
  ⟨(checkSetNewHf_frame h).1 ▸ checkSetNewHf_current h hnet hn hle, checkSetNewHf_nextFork h hn⟩

/-- On mainnet the loop leaves a fork ahead of the schedule where it is: the height of the
    next fork has not been reached. -/
theorem checkSetNewHf_of_ahead {s : HardForkState} (hnet : s.config.network = .mainnet)
    (hn : s.nextHardfork = s.currentHardfork.nextFork)
    (hlt : HardFork.scheduledFork (s.lastHeight + 1) < s.currentHardfork) :
    s.checkSetNewHf = some s := by
  rw [checkSetNewHf]
  split
  · rfl
  · rename_i newHf hsome
    have hgt : s.lastHeight + 1 < newHf.mainnetForkHeight := lt_of_not_le fun hle =>
      lt_irrefl _ (hlt.trans_le (((HardFork.lt_of_nextFork (hn.symm.trans hsome)).2 le_rfl).le.trans
        (HardFork.le_scheduledFork_iff.2 hle)))
    simp only [HardFork.forkHeight, hnet, if_neg (not_le.2 hgt)]

/-- On mainnet a chain of `V1` blocks gives, at every height below the activation of
    `V2`, a state at `V1` whose last height is the block below. -/
theorem initFromChainHeight_genesisChain {h : Nat} (h1 : 1 ≤ h) (h2 : h < 1009827) :
    ∃ s₀, initFromChainHeight .mainNet h genesisChain.database = some (.ok s₀) ∧
      s₀.currentHardfork = .V1 ∧ s₀.lastHeight = h - 1 := by
  obtain ⟨s₀, hloop, hinit⟩ := initFromChainHeight_chain_ok
    (show HardForkConfig.mainNet.network = .mainnet from rfl) genesisChain h1
    (by rw [wordSize_eq]; omega)
  have hcur := checkSetNewHf_current hloop rfl rfl (HardFork.V1_le _)
  have hlast := (checkSetNewHf_frame hloop).1
  simp only [chainState, Nat.sub_add_cancel h1] at hcur hlast
  have hsched : HardFork.scheduledFork h < .V2 := lt_of_not_le fun hle =>
    absurd (HardFork.le_scheduledFork_iff.1 hle) (by simp only [HardFork.mainnetForkHeight]; omega)
  have hV1 : ∀ hf : HardFork, hf < .V2 → hf = .V1 := by decide
  exact ⟨s₀, hinit, hcur.trans (hV1 _ hsched), hlast⟩

end HardForkState

end Cuprate
