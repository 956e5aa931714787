import R10K.Rob.Redirect
import R10K.Spine.Places
import R10K.Stq.Drain
import R10K.Lsq.Ordered
import R10K.Backend.Credit
import R10K.Backend.Recovery
import R10K.Core.Wakeup
import R10K.Fifo.Refine
import R10K.Rename.Rat
import R10K.Rs.Oldest
import R10K.Rs.Once
import R10K.Dcache.Hit
import R10K.Dcache.Paths
import R10K.Dcache.Dirty
import R10K.Dcache.Writeback
import R10K.Dcache.Refill
import R10K.Icache.Deliver
import R10K.Branch.Predictions
import R10K.Backend.Accept
import R10K.LdqConservative.Ordered
import R10K.Stq.Window
import R10K.Lsq.Dispatch
import R10K.Lsq.Forward
import R10K.Fu.Mult
import R10K.Fu.Rv32
import R10K.Lsq.Resolved
import R10K.Lsq.Once
import R10K.Backend.Broadcast
import R10K.Lsq.Sleep
import R10K.Rob.Tags
import R10K.Icache.Lru
import R10K.Icache.Unique
import R10K.Core.Prf
import R10K.Rename.Matching
import R10K.Icache.Wired
import R10K.Dcache.Flat
import R10K.Whole.Program
