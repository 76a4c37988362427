import Sbfs.PathAgreement
import Sbfs.Fsync
import Sbfs.CacheFaults
import Sbfs.Isolation
import Sbfs.Offsets
import Sbfs.Format
import Sbfs.ShortOfSpace
import Sbfs.Directories
import Sbfs.Linking
import Sbfs.Creation
import Sbfs.DirectoryMap
import Sbfs.LinkCounts
import Sbfs.Allocator
import Sbfs.Ranges
import Sbfs.FailedGrowth
import Sbfs.EndOfFile
import Sbfs.LargeDirectories
import Sbfs.FailedCreate
import Sbfs.Recency
import Sbfs.SlotReuse
import Sbfs.PathWalks
import Sbfs.StrayFrees
import Sbfs.BlockCounts
import Sbfs.PathCacheRuns
import Sbfs.LongNames
import Sbfs.ClearPath
import Sbfs.Attributes
import Sbfs.EmptyDirectories
import Sbfs.RoundTrips
import Sbfs.ResizeDispatch
import Sbfs.InodeSlots
import Sbfs.Handles
import Sbfs.ClockEviction
import Sbfs.ShrinkCrashes
import Sbfs.StaleData
import Sbfs.CallReports
import Sbfs.LiveHandles
import Sbfs.FsyncHits
import Sbfs.CachedRuns
import Sbfs.Sessions
