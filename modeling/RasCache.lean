import RasCache.Foundation.Runs
import RasCache.Foundation.Outcomes
import RasCache.Cpu.Rob
import RasCache.Cpu.HistorySafety
import RasCache.Cpu.Lsq
import RasCache.Mem.Packet
import RasCache.Mem.Mshr
import RasCache.Mem.FillPermission
import RasCache.Mem.Tags
import RasCache.Mem.Cache
import RasCache.Mem.TempBlock
import RasCache.Mem.Frame
import RasCache.Mem.Access
import RasCache.Mem.Queue
import RasCache.Mem.NoFill
import RasCache.Mem.Denial
import RasCache.Mem.Residency
import RasCache.Mem.Tracking
import RasCache.Mem.Line
import RasCache.Mem.Levels
import RasCache.Mem.SnoopFilter
import RasCache.Mem.Multicore
import RasCache.Mem.TargetOrder
import RasCache.Mem.FlagConsistency
import RasCache.Mem.TargetBound
import RasCache.Mem.Handover
import RasCache.Mem.HistoryBuffer
import RasCache.Mem.SendEvent
import RasCache.Mem.NewRandFill
import RasCache.Mem.SnoopLedger
import RasCache.Mem.Downstream
import RasCache.Mem.FilterPort
import RasCache.Mem.PrefetchQueue
import RasCache.Cpu.SquashWalk
import RasCache.Mem.PfAckDelivery
import RasCache.Foundation.Stacks
import RasCache.Mem.SavedSnoop
import RasCache.Sim.EventQueue
import RasCache.Sim.Agenda
import RasCache.Cpu.RenameMap
import RasCache.Cpu.RenameRuns
import RasCache.Cpu.LoadStoreUnit
import RasCache.Cpu.MemOrder
import RasCache.Mem.CheckerScan
import RasCache.Mem.CheckerSound
import RasCache.Mem.Blocked
import RasCache.Mem.Arbitration
import RasCache.Mem.Collision
import RasCache.Mem.CacheRuns
import RasCache.Foundation.BackInsertion
import RasCache.Foundation.WordFields
import RasCache.Mem.IssueSlots
import RasCache.Mem.LoadLocked
import RasCache.Mem.NewRandIdx
import RasCache.Mem.PacketQueue
import RasCache.Mem.PrefetchFilter
import RasCache.Mem.RandomFill
import RasCache.Foundation.KeyedLists
import RasCache.Foundation.Pools
import RasCache.Mem.MshrQueue
import RasCache.Mem.SendChoice
import RasCache.Cpu.SplitAccess
import RasCache.Cpu.LsqRequest
import RasCache.Mem.DemandMarks
import RasCache.Foundation.DirectionTree
import RasCache.Mem.FilterRetry
import RasCache.Mem.FunctionalAccess
import RasCache.Mem.TreePlru
import RasCache.Base.AddrRangeMap
import RasCache.Cpu.StoreSet
import RasCache.Base.Bitfield
import RasCache.Base.Interleaving
import RasCache.Mem.DictionaryPatterns
import RasCache.Mem.Huffman
