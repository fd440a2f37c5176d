import RasCache.Mem.MshrQueue
import RasCache.Mem.QueueCalls
import RasCache.Mem.SendEvent

/-!
# Which entry is sent, and the order of a line

Model of `BaseCache::getNextQueueEntry` (`mem/cache/base.cc`) with `findPending`,
`findMatch` and `getNext` of both queues (`mem/cache/queue.hh`), for any content
of the queues. A conflict is looked up as the first entry of the line in the order
of the ready list, and only then are order numbers compared; the lookups for a
prefetch skip uncacheable entries. Every entry has a target, or the assertions of
the lookups fail.

`sendChoice_respects_iff` says for which contents the choice follows the order of
each line, and `nextQueueEntry_eq` relates the choice to the model of the send event.
-/
namespace RasCache.Mem

/-- What the lookups compare of an entry. -/
structure BufferEntry extends QueueEntry where
  uncacheable : Bool := false
deriving Repr, DecidableEq

/-- The lists of one of the two queues. -/
structure EntryQueue where
  allocatedList : List BufferEntry := []
  readyList : List BufferEntry := []
deriving Repr, DecidableEq

namespace EntryQueue

def getNext (q : EntryQueue) (curTick : Nat) : Option BufferEntry :=
  q.readyList.head?.filter fun entry => decide (entry.readyTime ≤ curTick)

def findPending (q : EntryQueue) (entry : BufferEntry) : Option BufferEntry :=
  q.readyList.find? fun ready => decide (ready.line = entry.line)

/-- The position of what `findPending` returns for a line. -/
def position (q : EntryQueue) (line : LineKey) : Option Nat :=
  q.readyList.findIdx? fun ready => decide (ready.line = line)

/-- With `ignore_uncacheable`, its default. -/
def findMatch (q : EntryQueue) (line : LineKey) : Option BufferEntry :=
  q.allocatedList.find? fun entry => !entry.uncacheable && decide (entry.line = line)

variable {q : EntryQueue} {entry : BufferEntry}

theorem getNext_eq_none_iff {curTick : Nat} : q.getNext curTick = none ↔
    ∀ first, q.readyList.head? = some first → curTick < first.readyTime := by
  cases starts : q.readyList.head? <;> simp [getNext, starts]

theorem findPending_eq_none_iff : q.findPending entry = none ↔
    ∀ pending ∈ q.readyList, pending.line ≠ entry.line := by
  simp [findPending]

theorem findMatch_eq_none_iff {line : LineKey} : q.findMatch line = none ↔
    ∀ entry ∈ q.allocatedList, entry.line = line → entry.uncacheable = true := by
  simp only [findMatch, List.find?_eq_none, Bool.and_eq_true, Bool.not_eq_true',
    decide_eq_true_eq, not_and]
  refine forall₂_congr fun entry _ => ?_
  cases entry.uncacheable <;> simp

theorem findPending_position : q.findPending entry =
    (q.position entry.line).bind fun i => q.readyList[i]? :=
  List.find?_eq_bind_findIdx?_getElem?

theorem position_some {line : LineKey} {i : Nat} (found : q.position line = some i) :
    ∃ entry, q.readyList[i]? = some entry ∧ entry.line = line := by
  obtain ⟨inside, same, _⟩ := List.findIdx?_eq_some_iff_getElem.mp found
  exact ⟨_, List.getElem?_eq_getElem inside, of_decide_eq_true same⟩

/-- The ready list of the send event has the entries without their kind. -/
theorem getNext_toQueueEntry (q : EntryQueue) (curTick : Nat) :
    QueueEntry.getNext (q.readyList.map BufferEntry.toQueueEntry) curTick =
      (q.getNext curTick).map BufferEntry.toQueueEntry := by
  rw [QueueEntry.getNext, List.head?_map, Option.filter_map]
  rfl

theorem position_toQueueEntry (q : EntryQueue) (line : LineKey) :
    ((q.readyList.map BufferEntry.toQueueEntry).findIdx? fun ready => decide (ready.line = line)) =
      q.position line :=
  List.findIdx?_map

end EntryQueue

/-- What is sent, and why: the next miss, a write that conflicts with it, the next
write, an older miss of its line, or a prefetch with an MSHR of its own. -/
inductive SendChoice where
  | miss (mshr : BufferEntry)
  | conflictingWrite (entry : BufferEntry)
  | write (entry : BufferEntry)
  | olderMiss (mshr : BufferEntry)
  | prefetch (line : LineKey)
deriving Repr, DecidableEq

structure SendContent where
  mshrQueue : EntryQueue
  writeBuffer : EntryQueue
deriving Repr, DecidableEq

/-- What a call meets besides the queues. `drawn` is the line of the packet that
`getPacket` returns, and `cached` says which lines the tags have. -/
structure SendCall where
  curTick : Nat
  prefetcher : Bool := true
  blocked : Bool := false
  drawn : Option LineKey := none
  cached : LineKey → Bool := fun _ => false

namespace SendContent

variable (cfg : QueueParams) (c : SendContent)

def writeBufferFull : Bool := decide (c.writeBuffer.allocatedList.length ≥ cfg.writeBuffers)

def canPrefetch : Bool :=
  mshrsCanPrefetch cfg.mshrs cfg.demandMshrReserve c.mshrQueue.allocatedList.length

/-- The end of `getNextQueueEntry`. -/
def tryPrefetch (call : SendCall) : Option SendChoice :=
  if call.prefetcher && c.canPrefetch cfg && !call.blocked then
    call.drawn.bind fun line =>
      if !call.cached line && (c.mshrQueue.findMatch line).isNone &&
          (c.writeBuffer.findMatch line).isNone then
        some (.prefetch line)
      else none
  else none

/-- A write goes, unless the first pending MSHR of its line came before it. -/
def sendWrite (entry : BufferEntry) : SendChoice :=
  match c.mshrQueue.findPending entry with
  | some conflict => if conflict.order < entry.order then .olderMiss conflict else .write entry
  | none => .write entry

/-- A miss goes, unless a write of its line is pending. -/
def sendMiss (mshr : BufferEntry) : SendChoice :=
  match c.writeBuffer.findPending mshr with
  | some conflict => .conflictingWrite conflict
  | none => .miss mshr

def getNextQueueEntry (call : SendCall) : Option SendChoice :=
  let miss := c.mshrQueue.getNext call.curTick
  -- a full write buffer has priority, otherwise misses have
  let write := (c.writeBuffer.getNext call.curTick).filter fun _ =>
    c.writeBufferFull cfg || miss.isNone
  match write, miss with
  | some entry, _ => some (c.sendWrite entry)
  | none, some mshr => some (c.sendMiss mshr)
  | none, none => c.tryPrefetch cfg call

/-! ### What a call owes to the order of each line -/

variable (call : SendCall)

/-- No write of the line of a miss is pending. -/
def MissRespects : Prop :=
  ∀ mshr, c.getNextQueueEntry cfg call = some (.miss mshr) →
    ∀ write ∈ c.writeBuffer.readyList, write.line ≠ mshr.line

/-- No MSHR of the line of a write is pending and older. -/
def WriteRespects : Prop :=
  ∀ entry, c.getNextQueueEntry cfg call = some (.write entry) →
    ∀ mshr ∈ c.mshrQueue.readyList, mshr.line = entry.line → ¬ mshr.order < entry.order

/-- Nothing is ready, and neither the tags nor the queues have the line. -/
def PrefetchRespects : Prop :=
  ∀ line, c.getNextQueueEntry cfg call = some (.prefetch line) →
    (∀ entry ∈ c.mshrQueue.readyList ++ c.writeBuffer.readyList, call.curTick < entry.readyTime) ∧
    call.blocked = false ∧ c.canPrefetch cfg = true ∧ call.cached line = false ∧
    ∀ entry ∈ c.mshrQueue.allocatedList ++ c.writeBuffer.allocatedList, entry.line ≠ line

/-- The next write is ready and has its turn. -/
def NextWrite (entry : BufferEntry) : Prop :=
  c.writeBuffer.getNext call.curTick = some entry ∧
    (c.writeBufferFull cfg = true ∨ c.mshrQueue.getNext call.curTick = none)

/-- If any pending MSHR of the line of the next write is older than it, the first one of the
ready list is. -/
def OldestFirst : Prop :=
  ∀ entry, c.NextWrite cfg call entry → ∀ mshr ∈ c.mshrQueue.readyList,
    mshr.line = entry.line → mshr.order < entry.order →
      ∀ first, c.mshrQueue.findPending entry = some first → first.order < entry.order

/-- A line is drawn that the tags do not have, there is room for its MSHR, and neither ready list
starts with a ready entry. -/
structure Offered (line : LineKey) : Prop where
  prefetcher : call.prefetcher = true
  drawn : call.drawn = some line
  room : c.canPrefetch cfg = true
  unblocked : call.blocked = false
  uncached : call.cached line = false
  noMiss : ∀ first, c.mshrQueue.readyList.head? = some first → call.curTick < first.readyTime
  noWrite : ∀ first, c.writeBuffer.readyList.head? = some first → call.curTick < first.readyTime

/-- When a line is offered, it has a cacheable entry, which the lookups find, or it has none at all
and nothing behind the first entries is ready either. -/
def LookupsSuffice : Prop :=
  ∀ line, c.Offered cfg call line →
    (∃ entry ∈ c.mshrQueue.allocatedList ++ c.writeBuffer.allocatedList,
      entry.line = line ∧ entry.uncacheable = false) ∨
    (∀ entry ∈ c.mshrQueue.readyList ++ c.writeBuffer.readyList, call.curTick < entry.readyTime) ∧
      ∀ entry ∈ c.mshrQueue.allocatedList ++ c.writeBuffer.allocatedList, entry.line ≠ line

/-! ### What the branches return -/

/-- What each choice says about the queues. -/
inductive Chosen : SendChoice → Prop
  | write (entry : BufferEntry) (next : c.NextWrite cfg call entry)
      (younger : ∀ first, c.mshrQueue.findPending entry = some first →
        ¬ first.order < entry.order) :
      Chosen (.write entry)
  | olderMiss (mshr : BufferEntry) : Chosen (.olderMiss mshr)
  | miss (mshr : BufferEntry) (free : c.writeBuffer.findPending mshr = none) : Chosen (.miss mshr)
  | conflictingWrite (entry : BufferEntry) : Chosen (.conflictingWrite entry)
  | prefetch (line : LineKey) (offered : c.Offered cfg call line)
      (noMshr : c.mshrQueue.findMatch line = none)
      (noEntry : c.writeBuffer.findMatch line = none) : Chosen (.prefetch line)

variable {cfg c call}

theorem sendWrite_chosen {entry : BufferEntry} (next : c.NextWrite cfg call entry) :
    c.Chosen cfg call (c.sendWrite entry) := by
  unfold sendWrite
  split
  next conflict found =>
    split
    next => exact .olderMiss conflict
    next younger =>
      refine .write entry next fun first same => ?_
      rw [found] at same
      cases same
      exact younger
  next free =>
    refine .write entry next fun first found => ?_
    rw [free] at found
    cases found

theorem sendMiss_chosen (mshr : BufferEntry) : c.Chosen cfg call (c.sendMiss mshr) := by
  unfold sendMiss
  split
  next conflict _ => exact .conflictingWrite conflict
  next free => exact .miss mshr free

variable {choice : SendChoice}

theorem tryPrefetch_chosen (noMiss : c.mshrQueue.getNext call.curTick = none)
    (noWrite : c.writeBuffer.getNext call.curTick = none)
    (chosen : c.tryPrefetch cfg call = some choice) : c.Chosen cfg call choice := by
  simp only [tryPrefetch] at chosen
  split at chosen
  next able =>
    obtain ⟨line, drawn, chosen⟩ := Option.bind_eq_some_iff.mp chosen
    split at chosen <;> cases chosen
    next absent =>
      simp only [Bool.and_eq_true, Bool.not_eq_true', Option.isNone_iff_eq_none] at able absent
      exact .prefetch line ⟨able.1.1, drawn, able.1.2, able.2, absent.1.1,
        EntryQueue.getNext_eq_none_iff.mp noMiss, EntryQueue.getNext_eq_none_iff.mp noWrite⟩
        absent.1.2 absent.2
  next => cases chosen

theorem getNextQueueEntry_chosen (chosen : c.getNextQueueEntry cfg call = some choice) :
    c.Chosen cfg call choice := by
  simp only [getNextQueueEntry] at chosen
  split at chosen
  next entry _ first =>
    cases chosen
    rw [Option.filter_eq_some_iff, Bool.or_eq_true, Option.isNone_iff_eq_none] at first
    exact sendWrite_chosen first
  next mshr _ _ =>
    cases chosen
    exact sendMiss_chosen mshr
  next noWrite noMiss =>
    refine tryPrefetch_chosen noMiss ?_ chosen
    -- without a miss every write that is ready has its turn
    cases ready : c.writeBuffer.getNext call.curTick with
    | none => rfl
    | some => simp [ready, noMiss] at noWrite

theorem getNextQueueEntry_write {entry : BufferEntry} (next : c.NextWrite cfg call entry)
    (younger : ∀ first, c.mshrQueue.findPending entry = some first → ¬ first.order < entry.order) :
    c.getNextQueueEntry cfg call = some (.write entry) := by
  have turn : (c.writeBufferFull cfg || (c.mshrQueue.getNext call.curTick).isNone) = true := by
    simpa using next.2
  have goes : c.sendWrite entry = .write entry := by
    unfold sendWrite
    split
    next found => exact if_neg (younger _ found)
    next => rfl
  simp [getNextQueueEntry, next.1, turn, goes, Option.filter]

theorem getNextQueueEntry_prefetch {line : LineKey} (offered : c.Offered cfg call line)
    (noMshr : c.mshrQueue.findMatch line = none) (noEntry : c.writeBuffer.findMatch line = none) :
    c.getNextQueueEntry cfg call = some (.prefetch line) := by
  have noMiss := EntryQueue.getNext_eq_none_iff.mpr offered.noMiss
  have noWrite := EntryQueue.getNext_eq_none_iff.mpr offered.noWrite
  simp [getNextQueueEntry, noMiss, noWrite, tryPrefetch, offered.prefetcher, offered.room,
    offered.unblocked, offered.drawn, offered.uncached, noMshr, noEntry]

/-! ### The order of a line -/

theorem writeRespects_iff : c.WriteRespects cfg call ↔ c.OldestFirst cfg call := by
  constructor
  · intro respects entry next mshr pending line older first found
    by_contra younger
    refine respects entry (getNextQueueEntry_write next fun other found' => ?_) mshr pending line
      older
    rwa [← Option.some.inj (found.symm.trans found')]
  · intro oldest entry chosen mshr pending line older
    cases getNextQueueEntry_chosen chosen with
    | write _ next younger =>
      cases found : c.mshrQueue.findPending entry with
      | none => exact EntryQueue.findPending_eq_none_iff.mp found mshr pending line
      | some first =>
        exact younger first found (oldest entry next mshr pending line older first found)

theorem prefetchRespects_iff : c.PrefetchRespects cfg call ↔ c.LookupsSuffice cfg call := by
  constructor
  · intro respects line offered
    rw [or_iff_not_imp_left]
    intro hidden
    -- the lookups miss the line only if its entries are all uncacheable
    have unseen (q : EntryQueue) (part : ∀ entry ∈ q.allocatedList,
        entry ∈ c.mshrQueue.allocatedList ++ c.writeBuffer.allocatedList) :
        q.findMatch line = none := by
      refine EntryQueue.findMatch_eq_none_iff.mpr fun entry mem same => ?_
      by_contra cacheable
      exact hidden ⟨entry, part entry mem, same, eq_false_of_ne_true cacheable⟩
    have chosen := getNextQueueEntry_prefetch offered
      (unseen _ fun _ => List.mem_append_left _) (unseen _ fun _ => List.mem_append_right _)
    obtain ⟨idle, _, _, _, absent⟩ := respects line chosen
    exact ⟨idle, absent⟩
  · intro suffice_ line chosen
    cases getNextQueueEntry_chosen chosen with
    | prefetch _ offered noMshr noEntry =>
      rcases suffice_ line offered with ⟨entry, mem, same, cacheable⟩ | ⟨idle, absent⟩
      · rw [EntryQueue.findMatch_eq_none_iff] at noMshr noEntry
        rcases List.mem_append.mp mem with mem | mem
        · exact absurd (noMshr entry mem same) (ne_true_of_eq_false cacheable)
        · exact absurd (noEntry entry mem same) (ne_true_of_eq_false cacheable)
      · exact ⟨idle, offered.unblocked, offered.room, offered.uncached, absent⟩

/-- A miss respects the order of its line for every content of the queues. A write does exactly if
the first pending MSHR of its line is older whenever any is, and a prefetch exactly if nothing is
ready behind the first entries and the lookups see every entry of its line. -/
theorem sendChoice_respects_iff (cfg : QueueParams) (c : SendContent) (call : SendCall) :
    c.MissRespects cfg call ∧ (c.WriteRespects cfg call ↔ c.OldestFirst cfg call) ∧
      (c.PrefetchRespects cfg call ↔ c.LookupsSuffice cfg call) := by
  refine ⟨fun mshr chosen => ?_, writeRespects_iff, prefetchRespects_iff⟩
  cases getNextQueueEntry_chosen chosen with
  | miss _ free => exact EntryQueue.findPending_eq_none_iff.mp free

/-- A line of the first domain. -/
def lineAt (blkAddr : Addr) : LineKey := ⟨blkAddr, false, 0⟩

/-- One entry for the line at zero, ready at 3. -/
def oneEntry : EntryQueue :=
  let entry : BufferEntry := { line := lineAt 0, readyTime := 3, order := 1 }
  ⟨[entry], [entry]⟩

/-- A miss alone, a write alone, and a prefetch of another line before either is ready. -/
theorem sendChoice_respects_iff_alone :
    (∃ mshr, (mk oneEntry {}).getNextQueueEntry ⟨4, 4, 0, 8⟩ { curTick := 5 } = some (.miss mshr) ∧
      (mk oneEntry {}).MissRespects ⟨4, 4, 0, 8⟩ { curTick := 5 }) ∧
    (∃ entry, (mk {} oneEntry).getNextQueueEntry ⟨4, 4, 0, 8⟩ { curTick := 5 } =
        some (.write entry) ∧ (mk {} oneEntry).WriteRespects ⟨4, 4, 0, 8⟩ { curTick := 5 }) ∧
    ∃ line, (mk oneEntry {}).getNextQueueEntry ⟨4, 4, 0, 8⟩
        { curTick := 2, drawn := some (lineAt 64) } = some (.prefetch line) ∧
      (mk oneEntry {}).PrefetchRespects ⟨4, 4, 0, 8⟩
        { curTick := 2, drawn := some (lineAt 64) } := by
  refine ⟨⟨_, rfl, (sendChoice_respects_iff _ _ _).1⟩,
    ⟨_, rfl, (sendChoice_respects_iff _ _ _).2.1.mpr ?_⟩,
    ⟨_, rfl, (sendChoice_respects_iff _ _ _).2.2.mpr ?_⟩⟩
  · intro _ _ _ none_
    cases none_
  · rintro line ⟨_, ⟨⟩, _⟩
    right
    decide

/-! ### The send event -/

/-- The place of a chosen entry in its ready list. -/
def ref (c : SendContent) : SendChoice → Option QueueRef
  | .miss _ => some (.miss 0)
  | .write _ => some (.write 0)
  | .olderMiss mshr => (c.mshrQueue.position mshr.line).map .miss
  | .conflictingWrite conflict => (c.writeBuffer.position conflict.line).map .write
  | .prefetch _ => none

theorem tryPrefetch_ref : (c.tryPrefetch cfg call).bind c.ref = none := by
  simp only [tryPrefetch, Option.bind_eq_none_iff]
  split
  · intro choice chosen
    obtain ⟨_, _, chosen⟩ := Option.bind_eq_some_iff.mp chosen
    split at chosen <;> cases chosen
    rfl
  · nofun

/-- The model of the send event sends the entry that is chosen here. -/
theorem nextQueueEntry_eq {port : PortParams} {sender : SendPort}
    (tick : call.curTick = sender.curTick)
    (misses : sender.misses = c.mshrQueue.readyList.map BufferEntry.toQueueEntry)
    (writes : sender.writes = c.writeBuffer.readyList.map BufferEntry.toQueueEntry)
    (full : sender.writeBufferFull port = c.writeBufferFull cfg) :
    sender.nextQueueEntry port = (c.getNextQueueEntry cfg call).bind c.ref := by
  simp only [SendPort.nextQueueEntry, getNextQueueEntry, misses, writes, full, ← tick,
    EntryQueue.getNext_toQueueEntry, Option.isNone_map, Option.filter_map, Function.comp_def]
  generalize (c.writeBuffer.getNext call.curTick).filter
    (fun _ => c.writeBufferFull cfg || (c.mshrQueue.getNext call.curTick).isNone) = write
  -- the lookups of the other queue find the same line
  cases write with
  | some entry =>
    simp only [Option.map_some, Option.bind_some, EntryQueue.position_toQueueEntry, sendWrite,
      EntryQueue.findPending_position]
    cases found : c.mshrQueue.position entry.line with
    | none => simp [ref]
    | some i =>
      obtain ⟨conflict, here, line⟩ := EntryQueue.position_some found
      by_cases older : conflict.order < entry.order <;> simp [here, older, ref, line, found]
  | none =>
    cases c.mshrQueue.getNext call.curTick with
    | none => exact tryPrefetch_ref.symm
    | some mshr =>
      simp only [Option.map_some, Option.map_none, Option.bind_some,
        EntryQueue.position_toQueueEntry, sendMiss, EntryQueue.findPending_position]
      cases found : c.writeBuffer.position mshr.line with
      | none => simp [ref]
      | some i =>
        obtain ⟨conflict, here, line⟩ := EntryQueue.position_some found
        simp [here, ref, line, found]

end SendContent

/-! ### The MSHR queue -/

namespace MshrQueue

variable {n : Nat}

def entry (q : MshrQueue n) (i : Fin n) : BufferEntry :=
  let cell := q.entries i
  { line := ⟨cell.mshr.blkAddr, cell.mshr.isSecure, cell.mshr.domainID⟩
    readyTime := cell.readyTime
    order := cell.order
    uncacheable := cell.mshr.uncacheable }

def content (q : MshrQueue n) : EntryQueue where
  allocatedList := q.allocatedList.map q.entry
  readyList := q.readyList.map q.entry

theorem content_getNext (q : MshrQueue n) (curTick : Nat) :
    q.content.getNext curTick = (q.getNext curTick).map q.entry := by
  unfold EntryQueue.getNext getNext content
  cases q.readyList with
  | nil => rfl
  | cons front rest =>
    have same : (q.entry front).readyTime = q.readyTime front := rfl
    by_cases late : q.readyTime front > curTick
    · simp [same, late]
    · simp [same, late, Nat.le_of_not_lt late]

/-- An uncacheable read. -/
def uncachedRead (whenReady order : Nat) : MshrQueueOp n :=
  let pkt := Packet.ofRequest { flags := { uncacheable := true } } .readReq 0 8
  .allocate 0 64 pkt whenReady order false

/-- The write of a line that goes between two reads of the line is sent before the
first of them, when the second one is ready earlier; a line with an uncacheable MSHR
is prefetched; and there is a prefetch while a miss is ready, when the miss before it
has been delayed. -/
theorem sendChoice_passes_read :
    (∃ q, Runs.run step (empty 4 0) [uncachedRead 20 1, uncachedRead 10 3] = some q ∧
      ∃ write : BufferEntry, write.line = SendContent.lineAt 0 ∧ write.order = 2 ∧
        (SendContent.mk q.content ⟨[write], [write]⟩).getNextQueueEntry ⟨4, 4, 0, 8⟩
          { curTick := 5 } = some (.write write) ∧
        ∃ mshr ∈ q.content.readyList, mshr.line = write.line ∧ mshr.order < write.order) ∧
    (∃ q, Runs.run step (empty 4 0) [uncachedRead 20 1] = some q ∧
      (SendContent.mk q.content {}).getNextQueueEntry ⟨4, 4, 0, 8⟩
        { curTick := 5, drawn := some (SendContent.lineAt 0) } =
          some (.prefetch (SendContent.lineAt 0)) ∧
      ∃ mshr ∈ q.content.allocatedList, mshr.line = SendContent.lineAt 0) ∧
    ∃ q, Runs.run step (empty 4 0) [miss 0 0 0, miss 64 5 1, .delay 0 0 10] = some q ∧
      (SendContent.mk q.content {}).getNextQueueEntry ⟨4, 4, 0, 8⟩
        { curTick := 5, drawn := some (SendContent.lineAt 128) } =
          some (.prefetch (SendContent.lineAt 128)) ∧
      ∃ mshr ∈ q.content.readyList, mshr.readyTime ≤ 5 := by
  let write : BufferEntry :=
    { line := SendContent.lineAt 0, readyTime := 5, order := 2, uncacheable := true }
  refine ⟨?_, Runs.exists_run (by decide +kernel), Runs.exists_run (by decide +kernel)⟩
  have first : ∃ q, Runs.run step (empty 4 0) [uncachedRead 20 1, uncachedRead 10 3] = some q ∧
      (SendContent.mk q.content ⟨[write], [write]⟩).getNextQueueEntry ⟨4, 4, 0, 8⟩
        { curTick := 5 } = some (.write write) ∧
      ∃ mshr ∈ q.content.readyList, mshr.line = write.line ∧ mshr.order < write.order :=
    Runs.exists_run (by decide +kernel)
  obtain ⟨q, ran, holds⟩ := first
  exact ⟨q, ran, write, rfl, rfl, holds⟩

end MshrQueue

end RasCache.Mem
