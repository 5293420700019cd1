import CuprateConsensus.Primitives
import CuprateConsensus.HardFork
import CuprateConsensus.Database
import CuprateConsensus.HFVotes
import CuprateConsensus.HardForkState
import CuprateConsensus.HardForkRebuild
import CuprateConsensus.HardForkRuns
import CuprateConsensus.Weight.Median
import CuprateConsensus.Weight.Limits
import CuprateConsensus.Weight.BinarySearch
import CuprateConsensus.Weight.Cache
import CuprateConsensus.Weight.Rebuild
import CuprateConsensus.Weight.Runs
