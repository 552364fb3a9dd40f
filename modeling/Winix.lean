import Winix.Fs.Descriptors
import Winix.Fs.Dirmap
import Winix.Fs.Eof
import Winix.Fs.Format
import Winix.Fs.Getcwd
import Winix.Fs.Lru
import Winix.Fs.Resolve
import Winix.Fs.Wakeups
import Winix.Fs.Writeback
import Winix.Kernel.Deadlock
import Winix.Kernel.Direct
import Winix.Kernel.Exec
import Winix.Kernel.Extents
import Winix.Kernel.Forkmem
import Winix.Kernel.Masks
import Winix.Kernel.Notices
import Winix.Kernel.Order
import Winix.Kernel.Status
import Winix.Kernel.Strings
import Winix.Kernel.Timers
import Winix.Kernel.Traces
import Winix.Kernel.Unblockable
