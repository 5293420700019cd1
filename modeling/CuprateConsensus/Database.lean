import CuprateConsensus.HardFork

/-! # The chain store

    Both caches talk to one collaborator, the chain store, through `DatabaseRequest`s
    answered by `DatabaseResponse`s. The two enums and the `Database` trait are declared
    outside `hardforks.rs` and `weight.rs`; they are modelled from the spec's table of
    requests and from how the two files use them. `BlockWeightInfo` is the struct of
    `weight.rs`.

    A store is a `tower::Service`: `ready()` may fail, and `call(request)` answers
    with a response or an error. Every call site awaits `ready()` and then `call`,
    directly or through `oneshot`. An error at either await propagates through `?`;
    cancelling the call at an await leaves `self` as it was there, so an error result
    that carries the state reached also covers cancellation.

    A store is arbitrary unless a result says otherwise. Section 1 ends with two small
    stores, one that is down and one that answers every request alike; Section 2 has the
    stores that answer from fixed per-block data (`ChainData`), over which the caches
    are compared with a fresh rebuild. The last section has the windows of heights the
    caches keep.
-/

namespace Cuprate

/-! ## Section 1: Requests, responses and stores -/

/-- `BlockWeightInfo` of `weight.rs`: the two weights kept per block. -/
structure BlockWeightInfo where
  blockWeight : Nat
  longTermWeight : Nat
  deriving DecidableEq, Repr

/-- Modelled from the spec: `DatabaseRequest`; a `Range<u64>` is given by its two ends. -/
inductive DatabaseRequest
  | chainHeight
  | blockHFInfo (height : Nat)
  | blockHfInfoInRange (start stop : Nat)
  | blockWeights (height : Nat)
  | blockWeightsInRange (start stop : Nat)
  deriving DecidableEq, Repr

/-- Modelled from the spec: `DatabaseResponse`. -/
inductive DatabaseResponse
  | chainHeight (height : Nat)
  | blockHFInfo (info : BlockHFInfo)
  | blockHfInfoInRange (infos : List BlockHFInfo)
  | blockWeights (weights : BlockWeightInfo)
  | blockWeightsInRange (weights : List BlockWeightInfo)
  deriving DecidableEq, Repr

/-- Modelled from the spec: a chain store, as the `Database` service the caches hold. -/
structure Database where
  /-- `ready().await`. -/
  ready : Except ConsensusError Unit
  /-- `call(request).await`. -/
  call : DatabaseRequest → Except ConsensusError DatabaseResponse

/-- `database.oneshot(request).await`, and `database.ready().await?.call(request).await`
    once `request` has been built: readiness, then the call. -/
def Database.oneshot (database : Database) (request : DatabaseRequest) :
    Except ConsensusError DatabaseResponse :=
  database.ready.bind fun () => database.call request

/-- A request `oneshot` answered was answered by `call`. -/
theorem Database.call_of_oneshot {database : Database} {request : DatabaseRequest}
    {response : DatabaseResponse} (h : database.oneshot request = .ok response) :
    database.call request = .ok response := by
  unfold Database.oneshot at h
  cases hr : database.ready with
  | error e => rw [hr] at h; cases h
  | ok u => rwa [hr] at h

/-- A store that is down: it never becomes ready. -/
def Database.unavailable : Database where
  ready := .error .database
  call := fun _ => .error .database

/-- A store that answers every request with `response`. Given a response of another
    variant than a request expects, the caches reach their `panic!` on an unexpected
    response. -/
def Database.constant (response : DatabaseResponse) : Database where
  ready := .ok ()
  call := fun _ => .ok response

/-! ## Section 2: Stores that answer from a fixed chain -/

/-- Fixed per-block data: block `k` has weights `weights k` and version and vote
    `hfInfo k`. -/
structure ChainData where
  chainHeight : Nat
  weights : Nat → BlockWeightInfo
  hfInfo : Nat → BlockHFInfo

/-- The store that answers from a `ChainData`: a range request gets the blocks of the
    range in chain order, a point request the block asked for. -/
def ChainData.database (chain : ChainData) : Database where
  ready := .ok ()
  call
    | .chainHeight => .ok (.chainHeight chain.chainHeight)
    | .blockHFInfo k => .ok (.blockHFInfo (chain.hfInfo k))
    | .blockHfInfoInRange a b => .ok (.blockHfInfoInRange ((List.range' a (b - a)).map chain.hfInfo))
    | .blockWeights k => .ok (.blockWeights (chain.weights k))
    | .blockWeightsInRange a b =>
      .ok (.blockWeightsInRange ((List.range' a (b - a)).map chain.weights))

@[simp] theorem ChainData.database_ready (chain : ChainData) : chain.database.ready = .ok () := rfl

@[simp] theorem ChainData.oneshot (chain : ChainData) (request : DatabaseRequest) :
    chain.database.oneshot request = chain.database.call request := rfl

@[simp] theorem ChainData.call_blockHFInfo (chain : ChainData) (k : Nat) :
    chain.database.call (.blockHFInfo k) = .ok (.blockHFInfo (chain.hfInfo k)) := rfl

@[simp] theorem ChainData.call_blockHfInfoInRange (chain : ChainData) (a b : Nat) :
    chain.database.call (.blockHfInfoInRange a b) =
      .ok (.blockHfInfoInRange ((List.range' a (b - a)).map chain.hfInfo)) := rfl

@[simp] theorem ChainData.call_blockWeights (chain : ChainData) (k : Nat) :
    chain.database.call (.blockWeights k) = .ok (.blockWeights (chain.weights k)) := rfl

@[simp] theorem ChainData.call_blockWeightsInRange (chain : ChainData) (a b : Nat) :
    chain.database.call (.blockWeightsInRange a b) =
      .ok (.blockWeightsInRange ((List.range' a (b - a)).map chain.weights)) := rfl

/-- A chain whose every block is a `V1` block voting `V1`, of weight `0`. -/
def genesisChain : ChainData := ⟨1, fun _ => ⟨0, 0⟩, fun _ => ⟨.V1, .V1⟩⟩

/-- A chain whose every block is a `V16` block voting `V16`, of weight `0`. -/
def v16Chain : ChainData := ⟨1, fun _ => ⟨0, 0⟩, fun _ => ⟨.V16, .V16⟩⟩

/-! ## Section 3: Windows of heights -/

/-- The heights of the last `size` blocks below `height`,
    `height.saturating_sub(size)..height`. -/
def window (size height : Nat) : List Nat :=
  List.range' (height - size) (height - (height - size))

theorem length_window (size height : Nat) : (window size height).length = min height size := by
  rw [window, List.length_range', Nat.sub_sub_eq_min]

@[simp] theorem mem_window {size height m : Nat} :
    m ∈ window size height ↔ height - size ≤ m ∧ m < height := by
  simp only [window, List.mem_range'_1]
  omega

/-- Below a full window, the next block only extends it. -/
theorem window_succ_of_lt {size height : Nat} (h : height < size) :
    window size (height + 1) = window size height ++ [height] := by
  rw [window, window, Nat.sub_eq_zero_of_le h, Nat.sub_eq_zero_of_le (Nat.le_of_lt h), Nat.sub_zero,
    Nat.sub_zero, List.range'_concat, Nat.zero_add, Nat.one_mul]

/-- Once the window is full, the next block pushes the oldest one out. -/
theorem window_append_of_le {size height : Nat} (h : size ≤ height) :
    window size height ++ [height] = (height - size) :: window size (height + 1) := by
  rw [window, window, Nat.sub_sub_self h, Nat.sub_sub_self (Nat.le_add_right_of_le h),
    Nat.sub_add_comm h, ← List.range'_succ, List.range'_concat, Nat.one_mul, Nat.sub_add_cancel h]

end Cuprate
