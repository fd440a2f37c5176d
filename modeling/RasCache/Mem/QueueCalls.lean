import Mathlib.Logic.Function.Basic
import RasCache.Foundation.Outcomes

/-!
# The queues of a cache and its blocked state

Model of the functions of `BaseCache` that allocate and free entries of the MSHR
queue and of the write buffer (`mem/cache/base.hh`, `mem/cache/queue.hh`), with the
tests by which each of them blocks or unblocks the CPU-side port
(`mem/cache/base.cc`). What an entry holds does not matter here: an MSHR is its
`id`, and the entries of the write buffer are counted.
-/
namespace RasCache.Mem

open Outcomes Function

/-! ### The port -/

inductive BlockedCause where
  | noMSHRs
  | noWBBuffers
  | noTargets
deriving Repr, DecidableEq

/-- The position of the cause in `blocked`. -/
def BlockedCause.index : BlockedCause → Nat
  | .noMSHRs => 0
  | .noWBBuffers => 1
  | .noTargets => 2

def BlockedCause.flag (cause : BlockedCause) : BitVec 8 := 1#8 <<< cause.index

/-- The ways a call stops the simulation: a queue has no free entry, or an
assertion of the port fails. -/
inductive QueueFailure where
  | noFreeEntry
  | portAssertion
deriving Repr, DecidableEq

/-- `CacheResponsePort`. -/
structure CpuSidePort where
  blocked : Bool := false
  mustSendRetry : Bool := false
  sendRetryScheduled : Bool := false
deriving Repr, DecidableEq

namespace CpuSidePort

/-- A retry that has not happened yet is cancelled. -/
def setBlocked (port : CpuSidePort) : Except QueueFailure CpuSidePort :=
  if port.blocked then .error .portAssertion
  else if port.sendRetryScheduled then
    .ok { blocked := true, mustSendRetry := true, sendRetryScheduled := false }
  else .ok { port with blocked := true }

/-- `schedule` asserts that the event is not scheduled yet. -/
def clearBlocked (port : CpuSidePort) : Except QueueFailure CpuSidePort :=
  if !port.blocked then .error .portAssertion
  else if port.mustSendRetry then
    if port.sendRetryScheduled then .error .portAssertion
    else .ok { port with blocked := false, sendRetryScheduled := true }
  else .ok { port with blocked := false }

/-- `tryTiming`: the port, and whether it takes the request. -/
def tryTiming (port : CpuSidePort) : CpuSidePort × Bool :=
  if port.blocked || port.mustSendRetry then ({ port with mustSendRetry := true }, false)
  else ({ port with mustSendRetry := false }, true)

/-- `processSendRetry`, when the event is due. -/
def processSendRetry (port : CpuSidePort) : CpuSidePort :=
  if port.sendRetryScheduled then
    { port with mustSendRetry := false, sendRetryScheduled := false }
  else port

/-- A blocked port has no retry on the way, and a requestor that was turned away
is told when it may come again. -/
structure Kept (port : CpuSidePort) : Prop where
  quiet : port.blocked = true → port.sendRetryScheduled = false
  waits : port.mustSendRetry = true → port.blocked = true ∨ port.sendRetryScheduled = true

theorem setBlocked_spec (port : CpuSidePort) (free : port.blocked = false) :
    ∃ next, port.setBlocked = .ok next ∧ next.blocked = true ∧ next.Kept := by
  unfold setBlocked
  simp only [free, Bool.false_eq_true, if_false]
  split
  · exact ⟨_, rfl, rfl, ⟨fun _ => rfl, fun _ => .inl rfl⟩⟩
  next idle => exact ⟨_, rfl, rfl, ⟨fun _ => by simpa using idle, fun _ => .inl rfl⟩⟩

variable {port : CpuSidePort}

theorem Kept.clearBlocked (kept : port.Kept) (held : port.blocked = true) :
    ∃ next, port.clearBlocked = .ok next ∧ next.blocked = false ∧ next.Kept := by
  have quiet := kept.quiet held
  unfold CpuSidePort.clearBlocked
  simp only [held, quiet, Bool.not_true, Bool.false_eq_true, if_false]
  split
  · exact ⟨_, rfl, rfl, ⟨fun _ => by simp_all, fun _ => .inr rfl⟩⟩
  next calm => exact ⟨_, rfl, rfl, ⟨fun _ => rfl, fun retries => absurd retries calm⟩⟩

theorem Kept.tryTiming (kept : port.Kept) :
    port.tryTiming.1.blocked = port.blocked ∧ port.tryTiming.1.Kept := by
  unfold CpuSidePort.tryTiming
  split
  next refuses =>
    -- a port that is not blocked refuses because a retry is already on the way
    rw [Bool.or_eq_true] at refuses
    exact ⟨rfl, ⟨kept.quiet, fun _ => refuses.elim .inl kept.waits⟩⟩
  next => exact ⟨rfl, ⟨kept.quiet, fun retries => absurd retries Bool.false_ne_true⟩⟩

theorem Kept.processSendRetry (kept : port.Kept) :
    port.processSendRetry.blocked = port.blocked ∧ port.processSendRetry.Kept := by
  unfold CpuSidePort.processSendRetry
  split
  · exact ⟨rfl, ⟨fun _ => rfl, fun retries => absurd retries Bool.false_ne_true⟩⟩
  · exact ⟨rfl, kept⟩

end CpuSidePort

/-! ### The queues -/

structure QueueParams where
  mshrs : Nat
  writeBuffers : Nat
  demandMshrReserve : Nat := 0
  tgtsPerMSHR : Nat
deriving Repr, DecidableEq

/-- `MSHRQueue::canPrefetch`. -/
def mshrsCanPrefetch (mshrs demandReserve allocated : Nat) : Bool :=
  decide (allocated + 1 + demandReserve < mshrs)

/-- The allocated entries. -/
structure QueueEntries where
  mshrs : List Nat := []
  writes : Nat := 0
  noTargetMSHR : Option Nat := none
deriving Repr, DecidableEq

structure Queues extends QueueEntries where
  blocked : BitVec 8 := 0
  port : CpuSidePort := {}
deriving Repr, DecidableEq

/-- The calls that the handling of a packet makes. -/
inductive QueueCall where
  | allocateMissBuffer (id : Nat)
  | allocateWriteBuffer
  /-- An MSHR is sent. -/
  | markInService (id : Nat)
  /-- A write is sent, or dropped: its entry is freed. -/
  | markInServiceWrite
  /-- A request joins an MSHR, and `filled` if that makes `tgts_per_mshr`. -/
  | coalesce (id : Nat) (filled : Bool)
  /-- The start of `recvTimingResp`. -/
  | answer (id : Nat)
  /-- The end of `recvTimingResp`, for an MSHR without targets. -/
  | deallocate (id : Nat)
  /-- A prefetch is dropped, and `freed` if it was the last target. -/
  | forceDeallocateTarget (id : Nat) (freed : Bool)
deriving Repr, DecidableEq

/-- The call takes an entry from a free list. -/
def QueueCall.allocates : QueueCall → Bool
  | .allocateMissBuffer _ | .allocateWriteBuffer => true
  | _ => false

namespace QueueEntries

variable (cfg : QueueParams) (entries : QueueEntries)

/-- `mshrQueue.isFull()`: no entry is in reserve. -/
def mshrsFull : Bool := decide (cfg.mshrs ≤ entries.mshrs.length)

/-- `writeBuffer.isFull()`, which leaves the reserve out. -/
def writesFull : Bool := decide (cfg.writeBuffers ≤ entries.writes)

def canPrefetch : Bool :=
  mshrsCanPrefetch cfg.mshrs cfg.demandMshrReserve entries.mshrs.length

def removeMshr (id : Nat) : QueueEntries :=
  { entries with mshrs := entries.mshrs.filter fun other => decide (other ≠ id) }

/-- The entries after a call, whatever it does to the port. -/
def apply : QueueCall → QueueEntries
  | .allocateMissBuffer id => { entries with mshrs := entries.mshrs ++ [id] }
  | .allocateWriteBuffer => { entries with writes := entries.writes + 1 }
  | .markInService _ => entries
  | .markInServiceWrite => { entries with writes := entries.writes - 1 }
  | .coalesce id filled => if filled then { entries with noTargetMSHR := some id } else entries
  | .answer id =>
    if entries.noTargetMSHR = some id then { entries with noTargetMSHR := none } else entries
  | .deallocate id => entries.removeMshr id
  | .forceDeallocateTarget id freed => if freed then entries.removeMshr id else entries

/-- What the bits of `blocked` stand for. -/
def bits : BlockedCause → Bool
  | .noMSHRs => entries.mshrsFull cfg
  | .noWBBuffers => entries.writesFull cfg
  | .noTargets => entries.noTargetMSHR.isSome

end QueueEntries

namespace Queues

variable (cfg : QueueParams) (queues : Queues)

def isBlocked : Bool := decide (queues.blocked ≠ 0)

/-- The bit of the cause is set. -/
def has (cause : BlockedCause) : Bool := queues.blocked.getLsbD cause.index

def setBlocked (cause : BlockedCause) : Except QueueFailure Queues := do
  let port ← if queues.blocked = 0 then queues.port.setBlocked else .ok queues.port
  .ok { queues with port, blocked := queues.blocked ||| cause.flag }

def clearBlocked (cause : BlockedCause) : Except QueueFailure Queues := do
  let blocked := queues.blocked &&& ~~~cause.flag
  let port ← if blocked = 0 then queues.port.clearBlocked else .ok queues.port
  .ok { queues with port, blocked }

/-- The test after an allocation. -/
def setIfFull (full : Bool) (cause : BlockedCause) : Except QueueFailure Queues :=
  if full then queues.setBlocked cause else .ok queues

/-- The test around a deallocation. -/
def clearIfFreed (wasFull full : Bool) (cause : BlockedCause) : Except QueueFailure Queues :=
  if wasFull && !full then queues.clearBlocked cause else .ok queues

/-- The queues once the entries are as after the call. -/
def moved (op : QueueCall) : Queues := { queues with toQueueEntries := queues.apply op }

/-- The queues after one call. The write buffer has as many entries in reserve as
there are MSHRs. -/
def call (op : QueueCall) : Except QueueFailure Queues :=
  let next := queues.moved op
  match op with
  | .allocateMissBuffer _ =>
    if queues.mshrs.length < cfg.mshrs then next.setIfFull (next.mshrsFull cfg) .noMSHRs
    else .error .noFreeEntry
  | .allocateWriteBuffer =>
    if queues.writes < cfg.writeBuffers + cfg.mshrs then
      next.setIfFull (next.writesFull cfg) .noWBBuffers
    else .error .noFreeEntry
  | .markInServiceWrite =>
    next.clearIfFreed (queues.writesFull cfg) (next.writesFull cfg) .noWBBuffers
  | .coalesce _ filled => next.setIfFull filled .noTargets
  | .answer id =>
    -- the bit is cleared before the pointer
    if queues.noTargetMSHR = some id then
      (queues.clearBlocked .noTargets).map fun cleared => { cleared with noTargetMSHR := none }
    else .ok queues
  | .markInService _ | .deallocate _ | .forceDeallocateTarget _ _ =>
    next.clearIfFreed (queues.mshrsFull cfg) (next.mshrsFull cfg) .noMSHRs

/-- The calls of one event. -/
def calls (cfg : QueueParams) : Queues → List QueueCall → Except QueueFailure Queues
  | queues, [] => .ok queues
  | queues, op :: rest => do
    let next ← queues.call cfg op
    calls cfg next rest

end Queues

/-! ### The bits -/

/-- The value of `blocked` with these bits. -/
def blockedMask (bits : BlockedCause → Bool) : BitVec 8 :=
  (if bits .noMSHRs then BlockedCause.noMSHRs.flag else 0) |||
  (if bits .noWBBuffers then BlockedCause.noWBBuffers.flag else 0) |||
  (if bits .noTargets then BlockedCause.noTargets.flag else 0)

section

variable (bits : BlockedCause → Bool) (cause : BlockedCause)
include bits cause

theorem blockedMask_set :
    blockedMask bits ||| cause.flag = blockedMask (update bits cause true) := by
  cases first : bits .noMSHRs <;> cases second : bits .noWBBuffers <;>
    cases third : bits .noTargets <;> cases cause <;>
    simp only [blockedMask, update, first, second, third] <;> decide

theorem blockedMask_clear :
    blockedMask bits &&& ~~~cause.flag = blockedMask (update bits cause false) := by
  cases first : bits .noMSHRs <;> cases second : bits .noWBBuffers <;>
    cases third : bits .noTargets <;> cases cause <;>
    simp only [blockedMask, update, first, second, third] <;> decide

theorem blockedMask_bit : (blockedMask bits).getLsbD cause.index = bits cause := by
  cases first : bits .noMSHRs <;> cases second : bits .noWBBuffers <;>
    cases third : bits .noTargets <;> cases cause <;>
    simp only [blockedMask, first, second, third] <;> decide

end

theorem blockedMask_eq_zero (bits : BlockedCause → Bool) :
    blockedMask bits = 0 ↔ ∀ cause, bits cause = false := by
  constructor
  · intro zero cause
    rw [← blockedMask_bit bits cause, zero]
    exact BitVec.getLsbD_zero
  · intro none
    simp [blockedMask, none]

namespace Queues

/-- `blocked` has exactly these bits, and the port is blocked when one is set. -/
structure Shows (bits : BlockedCause → Bool) (queues : Queues) : Prop where
  mask : queues.blocked = blockedMask bits
  port : queues.port.blocked = queues.isBlocked
  kept : queues.port.Kept

namespace Shows

variable {bits : BlockedCause → Bool} {queues : Queues}

section

variable (shows : queues.Shows bits)
include shows

theorem has (cause : BlockedCause) : queues.has cause = bits cause := by
  rw [Queues.has, shows.mask, blockedMask_bit]

/-- The entries do not matter. -/
theorem entries (entries : QueueEntries) : Shows bits { queues with toQueueEntries := entries } :=
  ⟨shows.mask, shows.port, shows.kept⟩

theorem congr {other : BlockedCause → Bool} (same : other = bits) : queues.Shows other := by
  rw [same]
  exact shows

/-- The port is told when the first bit is set. -/
theorem setBlocked (cause : BlockedCause) :
    ∃ next, queues.setBlocked cause = .ok next ∧ next.toQueueEntries = queues.toQueueEntries ∧
      next.Shows (update bits cause true) := by
  have mask : queues.blocked ||| cause.flag = blockedMask (update bits cause true) := by
    rw [shows.mask, blockedMask_set]
  -- the bit that is set keeps the mask from being zero
  have nonzero : queues.blocked ||| cause.flag ≠ 0 := by
    intro zero
    rw [mask, blockedMask_eq_zero] at zero
    have unset := zero cause
    rw [update_self] at unset
    cases unset
  -- the port is blocked by the first cause only
  by_cases free : queues.blocked = 0
  · have open_ : queues.port.blocked = false := by
      rw [shows.port, isBlocked, free]
      rfl
    obtain ⟨port, sets, held, kept⟩ := queues.port.setBlocked_spec open_
    refine ⟨{ queues with port, blocked := queues.blocked ||| cause.flag }, ?_, rfl, mask, ?_, kept⟩
    · rw [Queues.setBlocked, if_pos free, sets]
      rfl
    · rw [held, isBlocked]
      exact (decide_eq_true nonzero).symm
  · refine ⟨{ queues with blocked := queues.blocked ||| cause.flag }, ?_, rfl, mask, ?_, shows.kept⟩
    · rw [Queues.setBlocked, if_neg free]
      rfl
    · rw [shows.port, isBlocked, isBlocked, decide_eq_true free]
      exact (decide_eq_true nonzero).symm

/-- The port is told when the last bit is cleared. It was blocked, for this bit was
set. -/
theorem clearBlocked (cause : BlockedCause) (set : bits cause = true) :
    ∃ next, queues.clearBlocked cause = .ok next ∧ next.toQueueEntries = queues.toQueueEntries ∧
      next.Shows (update bits cause false) := by
  have mask : queues.blocked &&& ~~~cause.flag =
    blockedMask (update bits cause false) := by
    rw [shows.mask, blockedMask_clear]
  have held : queues.port.blocked = true := by
    rw [shows.port, isBlocked, decide_eq_true_eq, shows.mask]
    intro zero
    rw [(blockedMask_eq_zero bits).mp zero cause] at set
    cases set
  -- the port opens when the last cause goes
  by_cases last : queues.blocked &&& ~~~cause.flag = 0
  · obtain ⟨port, clears, free, kept⟩ := shows.kept.clearBlocked held
    refine ⟨{ queues with port, blocked := queues.blocked &&& ~~~cause.flag }, ?_, rfl, mask, ?_,
      kept⟩
    · simp only [Queues.clearBlocked, last, if_true, clears]
      rfl
    · rw [free, isBlocked, last]
      rfl
  · refine ⟨{ queues with blocked := queues.blocked &&& ~~~cause.flag }, ?_, rfl, mask, ?_,
      shows.kept⟩
    · simp only [Queues.clearBlocked, last, if_false]
      rfl
    · rw [held, isBlocked]
      exact (decide_eq_true last).symm

theorem setIfFull (full : Bool) (cause : BlockedCause) (fills : bits cause = true → full = true) :
    ∃ next, queues.setIfFull full cause = .ok next ∧ next.toQueueEntries = queues.toQueueEntries ∧
      next.Shows (update bits cause full) := by
  cases full with
  | true => exact shows.setBlocked cause
  | false =>
    have unset : bits cause = false := by
      cases set : bits cause with
      | false => rfl
      | true => exact (fills set).symm
    refine ⟨queues, rfl, rfl, shows.congr ?_⟩
    rw [← unset, update_eq_self]

theorem clearIfFreed (wasFull full : Bool) (cause : BlockedCause) (was : bits cause = wasFull)
    (frees : full = true → wasFull = true) :
    ∃ next, queues.clearIfFreed wasFull full cause = .ok next ∧
      next.toQueueEntries = queues.toQueueEntries ∧ next.Shows (update bits cause full) := by
  cases full with
  | false =>
    cases wasFull with
    | true => exact shows.clearBlocked cause was
    | false =>
      refine ⟨queues, rfl, rfl, shows.congr ?_⟩
      rw [← was, update_eq_self]
  | true =>
    have still := frees rfl
    refine ⟨queues, ?_, rfl, shows.congr ?_⟩
    · rw [Queues.clearIfFreed, still]
      rfl
    · rw [← still, ← was, update_eq_self]

end

end Shows

end Queues

/-! ### One call -/

namespace QueueEntries

variable (cfg : QueueParams) (entries after : QueueEntries)

theorem bits_mshrs (writes : after.writes = entries.writes)
    (target : after.noTargetMSHR = entries.noTargetMSHR) : after.bits cfg =
      update (entries.bits cfg) .noMSHRs (after.mshrsFull cfg) := by
  funext cause
  cases cause with
  | noMSHRs => rfl
  | noWBBuffers => simp [bits, writesFull, writes]
  | noTargets => simp [bits, target]

theorem bits_writes (mshrs : after.mshrs = entries.mshrs)
    (target : after.noTargetMSHR = entries.noTargetMSHR) : after.bits cfg =
      update (entries.bits cfg) .noWBBuffers (after.writesFull cfg) := by
  funext cause
  cases cause with
  | noMSHRs => simp [bits, mshrsFull, mshrs]
  | noWBBuffers => rfl
  | noTargets => simp [bits, target]

theorem bits_targets (mshrs : after.mshrs = entries.mshrs)
    (writes : after.writes = entries.writes) : after.bits cfg =
      update (entries.bits cfg) .noTargets after.noTargetMSHR.isSome := by
  funext cause
  cases cause with
  | noMSHRs => simp [bits, mshrsFull, mshrs]
  | noWBBuffers => simp [bits, writesFull, writes]
  | noTargets => rfl

end QueueEntries

namespace Queues

variable {cfg : QueueParams} {queues : Queues}

/-- Every bit says what it stands for, and the MSHRs are not more than there are. -/
structure Exact (cfg : QueueParams) (queues : Queues) : Prop where
  shows : queues.Shows (queues.bits cfg)
  within : queues.mshrs.length ≤ cfg.mshrs

/-- The call returns, with these entries. -/
def Done (cfg : QueueParams) (entries : QueueEntries) (x : Except QueueFailure Queues) : Prop :=
  ∃ next, x = .ok next ∧ next.toQueueEntries = entries ∧ next.Exact cfg

theorem Done.of_shows {entries : QueueEntries} {bits : BlockedCause → Bool}
    {x : Except QueueFailure Queues} (same : entries.bits cfg = bits)
    (within : entries.mshrs.length ≤ cfg.mshrs)
    (returns : ∃ next, x = .ok next ∧ next.toQueueEntries = entries ∧ next.Shows bits) :
    Done cfg entries x := by
  obtain ⟨next, ret, rfl, shows⟩ := returns
  exact ⟨next, ret, rfl, shows.congr same, within⟩

section

variable (exact_ : queues.Exact cfg)
include exact_

/-- A call that frees MSHRs, or none. -/
theorem Exact.released (op : QueueCall)
    (fewer : (queues.apply op).mshrs.length ≤ queues.mshrs.length)
    (writes : (queues.apply op).writes = queues.writes)
    (target : (queues.apply op).noTargetMSHR = queues.noTargetMSHR) : Done cfg (queues.apply op)
      ((queues.moved op).clearIfFreed (queues.mshrsFull cfg)
        ((queues.moved op).mshrsFull cfg) .noMSHRs) :=
  .of_shows (queues.bits_mshrs cfg (queues.apply op) writes target)
    (Nat.le_trans fewer exact_.within)
    (Shows.clearIfFreed (exact_.shows.entries _) _ _ .noMSHRs rfl
      fun full => decide_eq_true (Nat.le_trans (of_decide_eq_true full) fewer))

theorem Exact.answered (id : Nat) :
    Done cfg (queues.apply (.answer id)) (queues.call cfg (.answer id)) := by
  unfold Queues.call
  dsimp only
  by_cases hit : queues.noTargetMSHR = some id
  · have set : queues.bits cfg .noTargets = true := by
      rw [QueueEntries.bits, hit]
      rfl
    obtain ⟨next, clears, moved, shows⟩ := exact_.shows.clearBlocked .noTargets set
    have entries : queues.apply (.answer id) =
        { queues.toQueueEntries with noTargetMSHR := none } := if_pos hit
    rw [if_pos hit, clears, entries]
    refine .of_shows (queues.bits_targets cfg _ rfl rfl) exact_.within
      ⟨{ next with noTargetMSHR := none }, rfl, ?_, shows.entries _⟩
    rw [← moved]
  · have entries : queues.apply (.answer id) = queues.toQueueEntries := if_neg hit
    rw [if_neg hit, entries]
    exact ⟨queues, rfl, rfl, exact_⟩

/-- A call that allocates nothing returns. -/
theorem Exact.frees (op : QueueCall) (frees : op.allocates = false) :
    Done cfg (queues.apply op) (queues.call cfg op) := by
  cases op with
  | allocateMissBuffer => cases frees
  | allocateWriteBuffer => cases frees
  | markInService id => exact exact_.released (.markInService id) (Nat.le_refl _) rfl rfl
  -- a freed entry can only clear a bit, a full list of targets only set one
  | markInServiceWrite =>
    exact .of_shows (queues.bits_writes cfg _ rfl rfl) exact_.within
      (Shows.clearIfFreed (exact_.shows.entries _) _ _ .noWBBuffers rfl
        fun full => decide_eq_true (Nat.le_trans (of_decide_eq_true full) (Nat.sub_le _ _)))
  | coalesce _ filled =>
    cases filled with
    | true =>
      exact .of_shows (queues.bits_targets cfg _ rfl rfl) exact_.within
        (Shows.setIfFull (exact_.shows.entries _) true .noTargets (fun _ => rfl))
    | false => exact ⟨queues, rfl, rfl, exact_⟩
  | answer id => exact exact_.answered id
  | deallocate id =>
    exact exact_.released (.deallocate id) (List.length_filter_le _ _) rfl rfl
  | forceDeallocateTarget id freed =>
    cases freed with
    | true =>
      exact exact_.released (.forceDeallocateTarget id true) (List.length_filter_le _ _) rfl rfl
    | false => exact exact_.released (.forceDeallocateTarget id false) (Nat.le_refl _) rfl rfl

/-- A call fails only when there is no free entry, and keeps the bits exact. -/
theorem Exact.call (op : QueueCall) : queues.call cfg op = .error .noFreeEntry ∨
      Done cfg (queues.apply op) (queues.call cfg op) := by
  cases op with
  | allocateMissBuffer id =>
    unfold Queues.call
    dsimp only
    split
    next =>
      have within : (queues.mshrs ++ [id]).length ≤ cfg.mshrs := by
        rw [List.length_append, List.length_singleton]
        omega
      refine .inr (.of_shows (queues.bits_mshrs cfg _ rfl rfl) within
        (Shows.setIfFull (exact_.shows.entries _) _ .noMSHRs ?_))
      -- the queue had room
      intro full
      have full : cfg.mshrs ≤ queues.mshrs.length := by
        simpa [QueueEntries.bits, QueueEntries.mshrsFull] using full
      omega
    next => exact .inl rfl
  | allocateWriteBuffer =>
    unfold Queues.call
    dsimp only
    split
    next =>
      refine .inr (.of_shows (queues.bits_writes cfg _ rfl rfl) exact_.within
        (Shows.setIfFull (exact_.shows.entries _) _ .noWBBuffers ?_))
      -- an entry of the reserve may be taken while the buffer is full
      intro full
      have full : cfg.writeBuffers ≤ queues.writes := by
        simpa [QueueEntries.bits, QueueEntries.writesFull] using full
      have more : cfg.writeBuffers ≤ queues.writes + 1 := by omega
      exact decide_eq_true more
    next => exact .inl rfl
  | _ => exact .inr (exact_.frees _ rfl)

/-- The same for the calls of one event. -/
theorem Exact.calls (ops : List QueueCall) : queues.calls cfg ops = .error .noFreeEntry ∨
      Done cfg (ops.foldl QueueEntries.apply queues.toQueueEntries) (queues.calls cfg ops) := by
  induction ops generalizing queues with
  | nil => exact .inr ⟨queues, rfl, rfl, exact_⟩
  | cons op _ ih =>
    unfold Queues.calls
    rcases exact_.call op with failed | ⟨next, ret, moved, exact_⟩
    · rw [failed]
      exact .inl rfl
    · rw [ret, List.foldl_cons, ← moved]
      exact ih exact_

end

/-! ### What clears a bit -/

/-- An outstanding entry, or enough of them, clear the cause when they leave. -/
def Clears (cfg : QueueParams) (queues : Queues) : BlockedCause → Prop
  | .noMSHRs => queues.mshrs ≠ [] ∧ ∀ id ∈ queues.mshrs, ∃ next,
      queues.call cfg (.deallocate id) = .ok next ∧ next.has .noMSHRs = false
  | .noWBBuffers => ∃ n, 0 < n ∧ n ≤ queues.writes ∧ ∃ next,
      queues.calls cfg (List.replicate n .markInServiceWrite) = .ok next ∧
        next.has .noWBBuffers = false
  | .noTargets => ∃ id ∈ queues.mshrs, queues.noTargetMSHR = some id ∧ ∃ next,
      queues.call cfg (.answer id) = .ok next ∧ next.has .noTargets = false

section

variable (exact_ : queues.Exact cfg)
include exact_

theorem Exact.clears_noMSHRs (some_ : 1 ≤ cfg.mshrs) (set : queues.has .noMSHRs = true) :
    queues.Clears cfg .noMSHRs := by
  have full : cfg.mshrs ≤ queues.mshrs.length := by
    rw [exact_.shows.has, QueueEntries.bits, QueueEntries.mshrsFull, decide_eq_true_eq] at set
    exact set
  refine ⟨List.ne_nil_of_length_pos (by omega), fun id mem => ?_⟩
  obtain ⟨next, ret, moved, after⟩ := exact_.frees (.deallocate id) rfl
  refine ⟨next, ret, ?_⟩
  rw [after.shows.has, moved]
  -- the entry that leaves was one of exactly as many as there may be
  have shorter : (queues.apply (.deallocate id)).mshrs.length < queues.mshrs.length :=
    List.length_filter_lt_length_iff_exists.mpr ⟨id, mem, by simp⟩
  apply decide_eq_false
  have within := exact_.within
  omega

theorem Exact.drains (n : Nat) :
    ∃ next, queues.calls cfg (List.replicate n .markInServiceWrite) = .ok next ∧
      next.writes = queues.writes - n ∧ next.Exact cfg := by
  induction n generalizing queues with
  | zero => exact ⟨queues, rfl, rfl, exact_⟩
  | succ n ih =>
    obtain ⟨_, ret, moved, after⟩ := exact_.frees .markInServiceWrite rfl
    obtain ⟨last, rest, left, exact_⟩ := ih after
    refine ⟨last, ?_, ?_, exact_⟩
    · rw [List.replicate_succ, Queues.calls, ret]
      exact rest
    · rw [left, moved]
      show queues.writes - 1 - n = queues.writes - (n + 1)
      omega

theorem Exact.clears_noWBBuffers (some_ : 1 ≤ cfg.writeBuffers)
    (set : queues.has .noWBBuffers = true) : queues.Clears cfg .noWBBuffers := by
  have full : cfg.writeBuffers ≤ queues.writes := by
    rw [exact_.shows.has, QueueEntries.bits, QueueEntries.writesFull, decide_eq_true_eq] at set
    exact set
  obtain ⟨next, ret, _, after⟩ := exact_.drains (queues.writes - cfg.writeBuffers + 1)
  refine ⟨_, by omega, by omega, next, ret, ?_⟩
  rw [after.shows.has]
  apply decide_eq_false
  omega

theorem Exact.clears_noTargets (id : Nat) (points : queues.noTargetMSHR = some id)
    (waits : id ∈ queues.mshrs) : queues.Clears cfg .noTargets := by
  obtain ⟨next, ret, moved, after⟩ := exact_.answered id
  refine ⟨id, waits, points, next, ret, ?_⟩
  rw [after.shows.has, moved, QueueEntries.apply, if_pos points]
  rfl

end

end Queues

end RasCache.Mem
