import UnitHost.Main
import UnitHost.Proofs.Panic
import UnitHost.Proofs.SymbolTable
import UnitHost.Proofs.UnitOrder
import UnitHost.Proofs.HostPairs
import UnitHost.Proofs.Growth
import UnitHost.Proofs.LinkRuns
import UnitHost.Proofs.ImportOrder
import UnitHost.Proofs.Transcript
import UnitHost.Proofs.LinkGrowth
import UnitHost.Proofs.GrowthSizes
import UnitHost.Proofs.Limits
import UnitHost.Proofs.FailedLinks
import UnitHost.Proofs.FailurePaths
import UnitHost.Proofs.LinkCourse
import UnitHost.Proofs.PhaseLabels
import UnitHost.Proofs.MarkTimes
import UnitHost.Proofs.Isolation
import UnitHost.Proofs.ByteChannel
import UnitHost.Proofs.Replacement
import UnitHost.Proofs.PhaseGroups
import UnitHost.Proofs.Unwinding
import UnitHost.Proofs.HostRanges
import UnitHost.Proofs.InputRanges
import UnitHost.Proofs.Installation
import UnitHost.Proofs.Observations
import UnitHost.Proofs.Settings
import UnitHost.Proofs.Brackets
import UnitHost.Proofs.Literals
import UnitHost.Proofs.Blocks
import UnitHost.Proofs.ShellOutput
import UnitHost.Proofs.DistinctKeys
import UnitHost.Proofs.Layering
