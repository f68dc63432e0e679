import Ucore.Buddy.Count
import Ucore.Memmap.Search
import Ucore.Sfs.Disk
import Ucore.Sfs.Descriptors
import Ucore.Sfs.Maps
import Ucore.Sfs.Deadlock
import Ucore.Sync.Sem
import Ucore.Sync.Life
import Ucore.Sync.Rendezvous
import Ucore.Sync.Kill
import Ucore.Sync.Blocks
import Ucore.Sync.Ids
import Ucore.Sched.Timer
import Ucore.Sched.Queues
import Ucore.River.Dos
import Ucore.River.Irq
import Ucore.Slab.Layout
import Ucore.Process.Group
import Ucore.Process.Pid
import Ucore.Pipe.Channel
import Ucore.Mm.Checked
import Ucore.Mm.Segments
import Ucore.Vmm.Gap
import Ucore.Vmm.Teardown
import Ucore.Rb.Search
import Ucore.Text.Numbers
