import Kernal.Atomics
import Kernal.Boot
import Kernal.BootPaging
import Kernal.BuddyBounds
import Kernal.BuddyCallers
import Kernal.BuddyExtent
import Kernal.BuddyFreeOrder
import Kernal.BuddyGuard
import Kernal.BuddyMove
import Kernal.BuddyPcpInit
import Kernal.BuddyReturn
import Kernal.BuddyRoundTrip
import Kernal.BuddyStats
import Kernal.CfsAccounting
import Kernal.CfsCounts
import Kernal.CfsFairness
import Kernal.CfsKeep
import Kernal.CfsLeftmost
import Kernal.CfsRequeue
import Kernal.CfsTurns
import Kernal.CfsWeight
import Kernal.Console
import Kernal.HlistWalk
import Kernal.InterruptRuns
import Kernal.LazyMm
import Kernal.ListCut
import Kernal.ListEntries
import Kernal.ListWalk
import Kernal.LockGuards
import Kernal.MemoryRoutines
import Kernal.RqClock
import Kernal.RwlockRounds
import Kernal.SpinlockProgress
import Kernal.Strings
import Kernal.SyscallEntry
import Kernal.TaskPid
import Kernal.TaskRelease
import Kernal.TaskRunnable
import Kernal.TaskSwitch
import Kernal.UserRegs
import Kernal.ZoneLock
