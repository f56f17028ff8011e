import ScBl.Lib.Loops
import ScBl.Lib.Words
import ScBl.Lib.Bytes
import ScBl.Lib.Runs
import ScBl.Xlen
import ScBl.Bitops
import ScBl.Emu.Hart
import ScBl.Emu.Isa
import ScBl.Emu.Decode
import ScBl.Emu.Misaligned
import ScBl.Emu.Contract
import ScBl.Emu.History
import ScBl.Emu.Restart
import ScBl.Sbi
import ScBl.Pmu.Core
import ScBl.Pmu.Effects
import ScBl.Pmu.Exclusive
import ScBl.Pmu.IndexLaw
import ScBl.Pmu.Counters
import ScBl.Pmu.StartStop
import ScBl.Pmu.EventRegs
import ScBl.Pmu.Requested
import ScBl.CachePmu.Access
import ScBl.CachePmu.L2
import ScBl.CachePmu.L2Bounds
import ScBl.CachePmu.L3
import ScBl.CachePmu.CfgMatch
import ScBl.CachePmu.L3Bounds
import ScBl.CachePmu.Online
import ScBl.CachePmu.L2Alloc
import ScBl.CachePmu.Requested
import ScBl.CachePmu.L2Control
import ScBl.CachePmu.L2Started
import ScBl.CachePmu.L2Split
import ScBl.CachePmu.L3Alloc
import ScBl.CachePmu.L3Control
import ScBl.CachePmu.L3Agree
import ScBl.CachePmu.L3Init
import ScBl.Lib.Napot
import ScBl.Memcheck
import ScBl.Lib.RefCount
import ScBl.Ipi.Msg
import ScBl.Ipi.Send
import ScBl.Ipi.Pool
import ScBl.Ipi.PoolSafe
import ScBl.Ipi.PoolStop
import ScBl.Lib.Doorway
import ScBl.Spinlock
import ScBl.Lib.Crc
import ScBl.Crc
import ScBl.Xmodem.Receive
import ScBl.Xmodem.Transfer
import ScBl.Xmodem.Refine
import ScBl.Xmodem.Contract
import ScBl.Ipi.Consume
import ScBl.Sbi.FastPath
import ScBl.Sbi.Dispatch
import ScBl.Sbi.MaskLoop
import ScBl.Sbi.Agree
import ScBl.Sbi.Hls
import ScBl.Smp.Init
import ScBl.Smp.Numbering
import ScBl.Hsm.Cores
import ScBl.Hsm.Calls
import ScBl.Hsm.Honest
import ScBl.Hsm.Restart
import ScBl.Hsm.Orderly
import ScBl.Lib.RvPriv
import ScBl.Trap.Redirect
import ScBl.Trap.Entry
import ScBl.Trap.Hypervisor
import ScBl.Timer
import ScBl.Sbi.FastPath32
import ScBl.Sbi.CallerRegs
import ScBl.Lib.Prog
import ScBl.Flash.Nor
import ScBl.Flash.Xqspi
import ScBl.Flash.Transfer
import ScBl.Flash.Commands
import ScBl.Flash.Write
import ScBl.Lib.Rv
import ScBl.Sbi.MaskWalk
import ScBl.Lib.Pages
import ScBl.Ipi.Rfence
import ScBl.Lib.Sv39
import ScBl.Trap.TlbMiss
import ScBl.Flash.Read
import ScBl.Flash.ReadFill
import ScBl.Memset
import ScBl.Xmodem.Burst
import ScBl.Colorize
import ScBl.Console
import ScBl.ColorizeLine
import ScBl.Smp.DtbFill
import ScBl.Pmp
import ScBl.Kbd
import ScBl.CacheRange
import ScBl.SetBits
import ScBl.FindBit
import ScBl.Imsic
import ScBl.Smp.Boot
import ScBl.Smp.BootStages
import ScBl.Smp.BootSafe
import ScBl.Lib.Fair
import ScBl.Smp.BootLive
import ScBl.Lib.Move
import ScBl.Relocate
import ScBl.Lib.RamTest
import ScBl.Fsbl.MemTest
import ScBl.Fsbl.Loop
import ScBl.Fsbl.Dump
import ScBl.Trap.Mmode
import ScBl.Trap.Interrupt
import ScBl.Trap.Context
import ScBl.Trap.Harts
import ScBl.Hsm.Online
import ScBl.Lib.Sim
import ScBl.L2Enable
import ScBl.L3Invalidate
import ScBl.Aplic
import ScBl.Ipi.Handlers
