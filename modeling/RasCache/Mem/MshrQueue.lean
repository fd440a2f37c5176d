import RasCache.Foundation.KeyedLists
import RasCache.Foundation.Pools
import RasCache.Foundation.Runs
import RasCache.Mem.Mshr
import Mathlib.Data.List.FinRange

/-!
# The lists of the MSHR queue

Model of `Queue` and `MSHRQueue` (`mem/cache/queue.hh`, `mem/cache/mshr_queue.cc`):
the storage, the three lists of pointers into it and the two counters, which each
operation updates on their own. An iterator is the position of the pointer it
belongs to, so to erase through it fails when the pointer is not in the list. A
failed assertion is `none`.

Callers hold pointers to allocated MSHRs only. What they do to the targets of one
is `work`, any change that leaves `inService` alone. The ready times of targets
are not kept in `Target`; the one `promoteDeferredTargets` reads is an input.

`mshrQueue_partitioned` is about the lists and the counters of every run,
`readyList_ordered_iff` about the order of the ready list.
-/
namespace RasCache.Mem

/-- `TargetList::isReset`. -/
def TargetFlags.isReset (flags : TargetFlags) : Bool :=
  !flags.needsWritable && !flags.hasUpgrade && !flags.allocOnFill && flags.mayNotFill &&
    !flags.demandFetch && !flags.hasFromCache && flags.canMergeWrites

/-- `MSHR::deallocate`. -/
def Mshr.deallocate (mshr : Mshr) : Option Mshr :=
  if !mshr.targets.list.isEmpty then none
  else if !mshr.deferredTargets.flags.isReset then none
  else some { mshr with targets := .init mshr.blkSize, inService := false }

/-- An MSHR with the fields of its `QueueEntry`. -/
structure MshrCell where
  readyTime : Nat := 0
  order : Nat := 0
  mshr : Mshr
deriving Repr, DecidableEq

/-- What the constructor of `MSHR` leaves. -/
def MshrCell.unused : MshrCell where
  mshr :=
    { blkAddr := 0, blkSize := 0, isSecure := false, domainID := 0, uncacheable := false
      targets := .init 0, deferredTargets := .init 0 }

/-- `n` is `numEntries`, the reserve included. -/
structure MshrQueue (n : Nat) where
  numReserve : Nat
  entries : Fin n → MshrCell := fun _ => .unused
  freeList : List (Fin n)
  allocatedList : List (Fin n) := []
  readyList : List (Fin n) := []
  allocated : Int := 0
  numInService : Int := 0

inductive MshrQueueOp (n : Nat) where
  | allocate (blkAddr : Addr) (blkSize : Nat) (pkt : Packet) (whenReady order : Nat)
      (allocOnFill : Bool)
  | markInService (i : Fin n) (pendingModifiedResp : Bool)
  | markPending (i : Fin n)
  | delay (i : Fin n) (curTick delayTicks : Nat)
  | moveToFront (i : Fin n)
  | work (i : Fin n) (mshr : Mshr)
  | promoteDeferredTargets (i : Fin n) (curTick targetReady : Nat)
  | forceDeallocateTarget (i : Fin n) (curTick targetReady : Nat)
  | deallocate (i : Fin n)

namespace MshrQueue

variable {n : Nat}

/-- The constructor. -/
def empty (n numReserve : Nat) : MshrQueue n where
  numReserve := numReserve
  freeList := List.finRange n

def readyTime (q : MshrQueue n) (i : Fin n) : Nat := (q.entries i).readyTime

def inService (q : MshrQueue n) (i : Fin n) : Bool := (q.entries i).mshr.inService

def isFull (q : MshrQueue n) : Bool := decide (q.allocated ≥ (n : Int) - q.numReserve)

def getNext (q : MshrQueue n) (curTick : Nat) : Option (Fin n) :=
  match q.readyList with
  | [] => none
  | front :: _ => if q.readyTime front > curTick then none else some front

/-- `none` is `MaxTick`. -/
def nextReadyTime (q : MshrQueue n) : Option Nat := q.readyList.head?.map q.readyTime

def store (q : MshrQueue n) (i : Fin n) (cell : MshrCell) : MshrQueue n :=
  { q with entries := Function.update q.entries i cell }

def addToReadyList (q : MshrQueue n) (i : Fin n) : List (Fin n) :=
  KeyedLists.add q.readyTime q.readyList i

/-- `list.erase(iter)`, for the iterator of `i`. -/
def eraseIter (list : List (Fin n)) (i : Fin n) : Option (List (Fin n)) :=
  if list.contains i then some (list.erase i) else none

/-- `list.splice(it, list, iter)`: the element at `iter` moves in front of the one
at `it`, which does not come before it. -/
def splice (list : List (Fin n)) (it iter : Nat) : List (Fin n) :=
  if it = iter then list
  else list.take iter ++ (list.drop (iter + 1)).take (it - iter - 1) ++
    (list[iter]?).toList ++ list.drop it

def allocate (q : MshrQueue n) (blkAddr : Addr) (blkSize : Nat) (pkt : Packet)
    (whenReady order : Nat) (allocOnFill : Bool) : Option (Fin n × MshrQueue n) :=
  match q.freeList with
  | [] => none
  | i :: freeList =>
    if (q.entries i).mshr.waiting.length ≠ 0 then none
    else
      let q := q.store i ⟨whenReady, order, .allocate blkAddr blkSize pkt order allocOnFill⟩
      some (i, { q with
        freeList
        allocatedList := q.allocatedList ++ [i]
        readyList := q.addToReadyList i
        allocated := q.allocated + 1 })

def markInService (q : MshrQueue n) (i : Fin n) (pendingModifiedResp : Bool) :
    Option (MshrQueue n) :=
  if q.inService i then none
  else
    let cell := q.entries i
    (eraseIter q.readyList i).map fun readyList =>
      { q.store i { cell with mshr := cell.mshr.markInService pendingModifiedResp } with
        readyList
        numInService := q.numInService + 1 }

def markPending (q : MshrQueue n) (i : Fin n) : Option (MshrQueue n) :=
  if q.inService i then
    let cell := q.entries i
    let q := q.store i { cell with mshr := { cell.mshr with inService := false } }
    some { q with numInService := q.numInService - 1, readyList := q.addToReadyList i }
  else none

/-- The search begins at the MSHR itself. -/
def delay (q : MshrQueue n) (i : Fin n) (curTick delayTicks : Nat) : Option (MshrQueue n) :=
  if q.readyList.contains i then
    if q.readyTime i ≤ curTick then
      let q := q.store i { q.entries i with readyTime := curTick + delayTicks }
      let iter := q.readyList.idxOf i
      let it := iter +
        (q.readyList.drop iter).findIdx fun j => decide (q.readyTime i ≥ q.readyTime j)
      some { q with readyList := splice q.readyList it iter }
    else none
  else none

def moveToFront (q : MshrQueue n) (i : Fin n) : Option (MshrQueue n) :=
  if !q.inService i then
    (eraseIter q.readyList i).map fun readyList => { q with readyList := i :: readyList }
  else some q

/-- The ready list without an entry that is freed. -/
def readyWithout (q : MshrQueue n) (i : Fin n) : Option (List (Fin n)) :=
  if q.inService i then some q.readyList else eraseIter q.readyList i

/-- `Queue::deallocate`. -/
def deallocate (q : MshrQueue n) (i : Fin n) : Option (MshrQueue n) := do
  let allocatedList ← eraseIter q.allocatedList i
  let readyList ← q.readyWithout i
  let mshr ← (q.entries i).mshr.deallocate
  return { q.store i { q.entries i with mshr } with
    allocatedList
    freeList := i :: q.freeList
    readyList
    allocated := q.allocated - 1
    numInService := if q.inService i then q.numInService - 1 else q.numInService }

/-- `MSHR::promoteDeferredTargets`; `none` when it returns false. -/
def promoteDeferredTargets (q : MshrQueue n) (i : Fin n) (curTick targetReady : Nat) :
    Option (MshrQueue n) := do
  let mshr ← (q.entries i).mshr.promoteDeferredTargets
  let front ← mshr.targets.list.head?
  return q.store i ⟨max curTick targetReady, front.order, mshr⟩

/-- The MSHR without its first target. -/
def popTarget (q : MshrQueue n) (i : Fin n) : Option (MshrQueue n) :=
  let cell := q.entries i
  match cell.mshr.targets.list with
  | [] => none
  | _ :: list => some (q.store i { cell with
      mshr := { cell.mshr with targets := { cell.mshr.targets with list } } })

/-- An MSHR without targets is freed, unless deferred ones move up. -/
def promoteOrFree (q : MshrQueue n) (i : Fin n) (curTick targetReady : Nat) :
    Option (MshrQueue n) :=
  if !(q.entries i).mshr.targets.list.isEmpty then some q
  else (q.promoteDeferredTargets i curTick targetReady).or (q.deallocate i)

/-- With the result, whether the queue is no longer full. -/
def forceDeallocateTarget (q : MshrQueue n) (i : Fin n) (curTick targetReady : Nat) :
    Option (Bool × MshrQueue n) := do
  let popped ← q.popTarget i
  let after ← popped.promoteOrFree i curTick targetReady
  return (q.isFull && !after.isFull, after)

/-- An operation on an MSHR is for one that is in use. -/
def onAllocated (q : MshrQueue n) (i : Fin n) (result : Option (MshrQueue n)) :
    Option (MshrQueue n) :=
  if q.allocatedList.contains i then result else none

def step (q : MshrQueue n) : MshrQueueOp n → Option (MshrQueue n)
  | .allocate blkAddr blkSize pkt whenReady order allocOnFill =>
    (q.allocate blkAddr blkSize pkt whenReady order allocOnFill).map Prod.snd
  | .markInService i pendingModifiedResp =>
    q.onAllocated i (q.markInService i pendingModifiedResp)
  | .markPending i => q.onAllocated i (q.markPending i)
  | .delay i curTick delayTicks => q.onAllocated i (q.delay i curTick delayTicks)
  | .moveToFront i => q.onAllocated i (q.moveToFront i)
  | .work i mshr =>
    q.onAllocated i (if mshr.inService = q.inService i then
      some (q.store i { q.entries i with mshr }) else none)
  | .promoteDeferredTargets i curTick targetReady =>
    q.onAllocated i (q.promoteDeferredTargets i curTick targetReady)
  | .forceDeallocateTarget i curTick targetReady =>
    q.onAllocated i ((q.forceDeallocateTarget i curTick targetReady).map Prod.snd)
  | .deallocate i => q.onAllocated i (q.deallocate i)

/-! ### What an operation can do -/

/-- The entry whose ready time an operation changes in place, and the new time. -/
def retimed (q : MshrQueue n) : MshrQueueOp n → Option (Fin n × Nat)
  | .delay i curTick delayTicks => some (i, curTick + delayTicks)
  | .promoteDeferredTargets i curTick targetReady => some (i, max curTick targetReady)
  | .forceDeallocateTarget i curTick targetReady =>
    let mshr := (q.entries i).mshr
    -- the last target goes, and deferred ones take its place
    if mshr.targets.list.length = 1 && !mshr.deferredTargets.list.isEmpty then
      some (i, max curTick targetReady)
    else none
  | _ => none

/-- The operation moves no entry of the ready list to the front. -/
def Unmoved (op : MshrQueueOp n) : Prop := ∀ i, op ≠ .moveToFront i

inductive Move (q : MshrQueue n) (op : MshrQueueOp n) : MshrQueue n → Prop
  | allocated (i : Fin n) (freeList : List (Fin n)) (cell : MshrCell)
      (free : q.freeList = i :: freeList) (unsent : cell.mshr.inService = false)
      (unmoved : Unmoved op) (time : q.retimed op = none) :
      Move q op { q.store i cell with
        freeList
        allocatedList := q.allocatedList ++ [i]
        readyList := (q.store i cell).addToReadyList i
        allocated := q.allocated + 1 }
  | sent (i : Fin n) (mshr : Mshr) (allocated : i ∈ q.allocatedList)
      (unsent : q.inService i = false) (sent : mshr.inService = true) (unmoved : Unmoved op)
      (time : q.retimed op = none) :
      Move q op { q.store i { q.entries i with mshr } with
        readyList := q.readyList.erase i
        numInService := q.numInService + 1 }
  | pended (i : Fin n) (mshr : Mshr) (allocated : i ∈ q.allocatedList) (sent : q.inService i = true)
      (unsent : mshr.inService = false) (unmoved : Unmoved op) (time : q.retimed op = none) :
      Move q op { q.store i { q.entries i with mshr } with
        numInService := q.numInService - 1
        readyList := (q.store i { q.entries i with mshr }).addToReadyList i }
  | stored (i : Fin n) (cell : MshrCell) (allocated : i ∈ q.allocatedList)
      (same : cell.mshr.inService = q.inService i) (unmoved : Unmoved op)
      (time : q.retimed op = some (i, cell.readyTime) ∨
        q.retimed op = none ∧ cell.readyTime = q.readyTime i) :
      Move q op (q.store i cell)
  | fronted (i : Fin n) (which : op = .moveToFront i) (ready : i ∈ q.readyList) :
      Move q op { q with readyList := i :: q.readyList.erase i }
  | untouched (i : Fin n) (which : op = .moveToFront i) (sent : q.inService i = true) : Move q op q
  | freed (i : Fin n) (cell : MshrCell) (allocated : i ∈ q.allocatedList) (unmoved : Unmoved op)
      (time : q.retimed op = none)
      (left : cell.mshr.waiting = [] ∨
        op = .deallocate i ∧ cell.mshr.waiting = (q.entries i).mshr.deferredTargets.list) :
      Move q op { q.store i cell with
        allocatedList := q.allocatedList.erase i
        freeList := i :: q.freeList
        readyList := if q.inService i then q.readyList else q.readyList.erase i
        allocated := q.allocated - 1
        numInService := if q.inService i then q.numInService - 1 else q.numInService }

@[simp] theorem store_entries (q : MshrQueue n) (i : Fin n) (cell : MshrCell) :
    (q.store i cell).entries = Function.update q.entries i cell := rfl

@[simp] theorem store_store (q : MshrQueue n) (i : Fin n) (first second : MshrCell) :
    (q.store i first).store i second = q.store i second := by
  simp [store]

@[simp] theorem inService_store_self (q : MshrQueue n) (i : Fin n) (cell : MshrCell) :
    (q.store i cell).inService i = cell.mshr.inService := by
  simp [inService]

theorem eraseIter_eq_some_iff {list erased : List (Fin n)} {i : Fin n} :
    eraseIter list i = some erased ↔ i ∈ list ∧ list.erase i = erased := by
  simp only [eraseIter, List.contains_iff_mem, Option.ite_none_right_eq_some, Option.some.injEq]

theorem onAllocated_eq_some_iff {q t : MshrQueue n} {i : Fin n} {result : Option (MshrQueue n)} :
    q.onAllocated i result = some t ↔ i ∈ q.allocatedList ∧ result = some t := by
  simp only [onAllocated, List.contains_iff_mem, Option.ite_none_right_eq_some]

variable {q t : MshrQueue n} {i : Fin n} {mshr : Mshr} {op : MshrQueueOp n}
  {curTick targetReady : Nat}

/-- The search of `delay` stops where it begins. -/
theorem delay_eq (curTick delayTicks : Nat) (ready : i ∈ q.readyList) :
    q.delay i curTick delayTicks =
      if q.readyTime i ≤ curTick then
        some (q.store i { q.entries i with readyTime := curTick + delayTicks })
      else none := by
  have starts : ∀ key : Fin n → Nat,
      (q.readyList.drop (q.readyList.idxOf i)).findIdx (fun j => decide (key i ≥ key j)) = 0 := by
    intro _
    have inside := List.idxOf_lt_length_of_mem ready
    rw [List.drop_eq_getElem_cons inside, List.getElem_idxOf inside, List.findIdx_cons]
    simp
  unfold delay
  rw [if_pos (List.contains_iff_mem.mpr ready)]
  split
  next =>
    simp only [splice]
    rw [if_pos]
    exact Nat.add_eq_left.mpr (starts _)
  next => rfl

/-- A promoted MSHR has a first target. -/
theorem promoted_head {promoted : Mshr} (moved : mshr.promoteDeferredTargets = some promoted) :
    promoted.inService = mshr.inService ∧ promoted.targets.list.head?.isSome = true := by
  unfold Mshr.promoteDeferredTargets at moved
  split at moved
  · cases moved
  next waits =>
    cases moved
    refine ⟨rfl, ?_⟩
    -- when no target is left, the first of the deferred ones moves up
    unfold Mshr.waiting at waits
    cases targets : mshr.targets.list with
    | cons => rfl
    | nil =>
      cases deferred : mshr.deferredTargets.list with
      | nil => simp [targets, deferred] at waits
      | cons =>
        simp only [TargetList.populated, Mshr.promotable, List.nil_append]
        split
        · rfl
        next plain => simp [plain]

theorem store_move (allocated : i ∈ q.allocatedList) (same : mshr.inService = q.inService i)
    (unmoved : Unmoved op) (time : q.retimed op = none) :
    Move q op (q.store i { q.entries i with mshr }) :=
  .stored i _ allocated same unmoved (.inr ⟨time, rfl⟩)

theorem promoteDeferredTargets_eq (done : q.promoteDeferredTargets i curTick targetReady = some t) :
    ∃ cell, t = q.store i cell ∧ cell.readyTime = max curTick targetReady ∧
      cell.mshr.inService = q.inService i := by
  obtain ⟨_, moved, done⟩ := Option.bind_eq_some_iff.mp done
  obtain ⟨_, _, done⟩ := Option.bind_eq_some_iff.mp done
  cases done
  exact ⟨_, rfl, rfl, (promoted_head moved).1⟩

theorem promoteDeferredTargets_none
    (failed : q.promoteDeferredTargets i curTick targetReady = none) :
    (q.entries i).mshr.deferredTargets.list = [] := by
  cases moved : (q.entries i).mshr.promoteDeferredTargets with
  | none =>
    by_cases idle : (q.entries i).mshr.waiting.isEmpty = true
    · exact (List.append_eq_nil_iff.mp (List.isEmpty_iff.mp idle)).2
    · rw [Mshr.promoteDeferredTargets, if_neg idle] at moved
      cases moved
  | some =>
    have first := (promoted_head moved).2
    obtain ⟨_, starts⟩ := Option.isSome_iff_exists.mp first
    simp [promoteDeferredTargets, moved, starts] at failed

theorem readyWithout_eq {readyList : List (Fin n)} (unready : q.readyWithout i = some readyList) :
    readyList = if q.inService i then q.readyList else q.readyList.erase i := by
  simp only [readyWithout] at unready
  split at unready
  next sent =>
    rw [if_pos sent]
    exact (Option.some.inj unready).symm
  next unsent =>
    rw [if_neg unsent]
    exact (eraseIter_eq_some_iff.mp unready).2.symm

/-- An MSHR is freed without looking at its deferred targets. -/
theorem deallocate_waiting {freed : Mshr} (done : mshr.deallocate = some freed) :
    freed.waiting = mshr.deferredTargets.list := by
  simp only [Mshr.deallocate] at done
  split at done
  · cases done
  · split at done <;> cases done
    rfl

theorem deallocate_eq (done : q.deallocate i = some t) :
    ∃ cell : MshrCell, cell.mshr.waiting = (q.entries i).mshr.deferredTargets.list ∧ t =
      { q.store i cell with
        allocatedList := q.allocatedList.erase i
        freeList := i :: q.freeList
        readyList := if q.inService i then q.readyList else q.readyList.erase i
        allocated := q.allocated - 1
        numInService := if q.inService i then q.numInService - 1 else q.numInService } := by
  obtain ⟨_, erased, done⟩ := Option.bind_eq_some_iff.mp done
  obtain ⟨_, unready, done⟩ := Option.bind_eq_some_iff.mp done
  obtain ⟨mshr, freed, done⟩ := Option.bind_eq_some_iff.mp done
  obtain ⟨_, rfl⟩ := eraseIter_eq_some_iff.mp erased
  cases done
  refine ⟨{ q.entries i with mshr }, deallocate_waiting freed, ?_⟩
  rw [readyWithout_eq unready]

/-- A forced deallocation frees the MSHR as it is without its last target. -/
theorem forceDeallocateTarget_move {notify : Bool} (allocated : i ∈ q.allocatedList)
    (done : q.forceDeallocateTarget i curTick targetReady = some (notify, t)) :
    Move q (.forceDeallocateTarget i curTick targetReady) t := by
  have unmoved : Unmoved (MshrQueueOp.forceDeallocateTarget i curTick targetReady) :=
    fun j same => by cases same
  obtain ⟨_, pops, done⟩ := Option.bind_eq_some_iff.mp done
  obtain ⟨_, decided, done⟩ := Option.bind_eq_some_iff.mp done
  cases done
  simp only [popTarget] at pops
  split at pops
  · cases pops
  next list targets =>
    cases pops
    simp only [promoteOrFree, store_entries, Function.update_self] at decided
    split at decided
    next left =>
      -- other targets are left, so nothing is promoted
      cases decided
      have several : list.length ≠ 0 := by simpa using left
      refine store_move allocated rfl unmoved ?_
      simp [retimed, targets, several]
    next none_ =>
      have last : list = [] := by simpa using none_
      subst last
      rcases Option.or_eq_some_iff.mp decided with promotes | ⟨unpromoted, frees⟩
      · obtain ⟨cell, rfl, time, same⟩ := promoteDeferredTargets_eq promotes
        have waits : (q.entries i).mshr.deferredTargets.list ≠ [] := by
          intro deferred
          simp [promoteDeferredTargets, Mshr.promoteDeferredTargets, Mshr.waiting, deferred]
            at promotes
        rw [store_store]
        refine .stored i cell allocated ?_ unmoved (.inl ?_)
        · rw [same, inService_store_self]
          rfl
        · simp [retimed, targets, waits, time]
      · obtain ⟨cell, left, rfl⟩ := deallocate_eq frees
        have deferred : (q.entries i).mshr.deferredTargets.list = [] := by
          simpa using promoteDeferredTargets_none unpromoted
        rw [inService_store_self, store_store]
        refine .freed i cell allocated unmoved ?_ (.inl ?_)
        · simp [retimed, deferred]
        · simpa [deferred] using left

theorem allocate_move {blkAddr blkSize : Nat} {pkt : Packet} {whenReady order : Nat}
    {allocOnFill : Bool}
    (done : q.allocate blkAddr blkSize pkt whenReady order allocOnFill = some (i, t)) :
    Move q (.allocate blkAddr blkSize pkt whenReady order allocOnFill) t := by
  simp only [allocate] at done
  split at done
  · cases done
  next i freeList free =>
    split at done <;> cases done
    exact .allocated i freeList _ free rfl (fun j same => by cases same) rfl

theorem markInService_move {pendingModifiedResp : Bool} (allocated : i ∈ q.allocatedList)
    (done : q.markInService i pendingModifiedResp = some t) :
    Move q (.markInService i pendingModifiedResp) t := by
  simp only [markInService] at done
  split at done
  · cases done
  next unsent =>
    obtain ⟨_, erased, rfl⟩ := Option.map_eq_some_iff.mp done
    obtain ⟨_, rfl⟩ := eraseIter_eq_some_iff.mp erased
    exact .sent i _ allocated (Bool.not_eq_true _ ▸ unsent) rfl (fun j same => by cases same) rfl

theorem delay_move {delayTicks : Nat} (allocated : i ∈ q.allocatedList)
    (done : q.delay i curTick delayTicks = some t) : Move q (.delay i curTick delayTicks) t := by
  by_cases ready : i ∈ q.readyList
  · rw [delay_eq curTick delayTicks ready] at done
    split at done <;> cases done
    exact .stored i _ allocated rfl (fun j same => by cases same) (.inl rfl)
  · -- the search for the entry runs off the end of the list
    rw [delay, if_neg (mt List.contains_iff_mem.mp ready)] at done
    cases done

theorem moveToFront_move (done : q.moveToFront i = some t) : Move q (.moveToFront i) t := by
  simp only [moveToFront] at done
  split at done
  next =>
    obtain ⟨_, erased, rfl⟩ := Option.map_eq_some_iff.mp done
    obtain ⟨ready, rfl⟩ := eraseIter_eq_some_iff.mp erased
    exact .fronted i rfl ready
  next sent =>
    cases done
    exact .untouched i rfl (by simpa using sent)

theorem step_move (taken : q.step op = some t) : Move q op t := by
  cases op with
  | allocate =>
    obtain ⟨⟨_, _⟩, done, rfl⟩ := Option.map_eq_some_iff.mp taken
    exact allocate_move done
  | markInService =>
    obtain ⟨allocated, taken⟩ := onAllocated_eq_some_iff.mp taken
    exact markInService_move allocated taken
  | markPending i =>
    obtain ⟨allocated, taken⟩ := onAllocated_eq_some_iff.mp taken
    simp only [markPending] at taken
    split at taken <;> cases taken
    next sent => exact .pended i _ allocated sent rfl (fun j same => by cases same) rfl
  | delay =>
    obtain ⟨allocated, taken⟩ := onAllocated_eq_some_iff.mp taken
    exact delay_move allocated taken
  | moveToFront =>
    obtain ⟨_, taken⟩ := onAllocated_eq_some_iff.mp taken
    exact moveToFront_move taken
  | work =>
    -- only queue operations put an MSHR in service or take it out
    obtain ⟨allocated, taken⟩ := onAllocated_eq_some_iff.mp taken
    split at taken <;> cases taken
    next same => exact store_move allocated same (fun j same => by cases same) rfl
  | promoteDeferredTargets i =>
    obtain ⟨allocated, taken⟩ := onAllocated_eq_some_iff.mp taken
    obtain ⟨cell, rfl, time, same⟩ := promoteDeferredTargets_eq taken
    exact .stored i cell allocated same (fun j same => by cases same) (.inl (by rw [time]; rfl))
  | forceDeallocateTarget =>
    obtain ⟨allocated, taken⟩ := onAllocated_eq_some_iff.mp taken
    obtain ⟨⟨_, _⟩, done, rfl⟩ := Option.map_eq_some_iff.mp taken
    exact forceDeallocateTarget_move allocated done
  | deallocate i =>
    obtain ⟨allocated, taken⟩ := onAllocated_eq_some_iff.mp taken
    obtain ⟨cell, left, rfl⟩ := deallocate_eq taken
    exact .freed i cell allocated (fun j same => by cases same) rfl (.inr ⟨rfl, left⟩)

/-! ### The partition -/

/-- The lists and counters are those of a pool whose busy entries are in service. -/
def Sound (q : MshrQueue n) : Prop :=
  Pools.Sound q.inService q.freeList q.allocatedList q.readyList q.allocated q.numInService

theorem Sound.empty (n numReserve : Nat) : (empty n numReserve).Sound := by
  constructor
  · intro i
    have mem : (List.finRange n).count i = 1 :=
      List.count_eq_one_of_mem (List.nodup_finRange n) (List.mem_finRange i)
    simp [MshrQueue.empty, mem]
  · intro _
    exact (ite_self 0).symm
  · rfl
  · rfl

theorem inService_store_of_ne (q : MshrQueue n) {i : Fin n} (cell : MshrCell) :
    ∀ j, j ≠ i → (q.store i cell).inService j = q.inService j := by
  intro _ other
  simp [inService, other]

theorem Sound.move (sound : q.Sound) (move : Move q op t) : t.Sound := by
  cases move with
  | allocated i _ cell free unsent =>
    unfold Sound at sound
    rw [free] at sound
    have state := (inService_store_self q i cell).trans unsent
    exact sound.allocate (inService_store_of_ne q cell) state (KeyedLists.add_perm _ _ i)
  | sent i mshr allocated unsent sent =>
    have state := (inService_store_self q i { q.entries i with mshr }).trans sent
    exact Pools.Sound.mark sound allocated (inService_store_of_ne q _) unsent state
  | pended i mshr allocated sent unsent =>
    have state := (inService_store_self q i { q.entries i with mshr }).trans unsent
    exact Pools.Sound.unmark sound allocated (inService_store_of_ne q _) sent state
      (KeyedLists.add_perm _ _ i)
  | stored i cell _ same =>
    -- an entry that is written over stays in service or out of it
    have state : (q.store i cell).inService = q.inService := by
      funext j
      by_cases other : j = i
      · rw [other, inService_store_self, same]
      · exact inService_store_of_ne q cell j other
    unfold Sound
    rw [state]
    exact sound
  | fronted _ _ ready => exact Pools.Sound.perm sound (List.perm_cons_erase ready).symm
  | untouched => exact sound
  | freed i cell allocated =>
    exact Pools.Sound.release sound allocated (inService_store_of_ne q cell)

theorem Sound.run (sound : q.Sound) (ops : List (MshrQueueOp n))
    (ran : Runs.run step q ops = some t) : t.Sound := by
  have keeps : ∀ (q : MshrQueue n) (op : MshrQueueOp n) (t : MshrQueue n), q.Sound → True →
      q.step op = some t → t.Sound :=
    fun q op t sound _ taken => sound.move (step_move taken)
  exact Runs.run_invariant keeps q t ops sound (Runs.along_trivial q ops) ran

/-- An allocated MSHR that has not been sent. -/
def Pending (q : MshrQueue n) (i : Fin n) : Prop := i ∈ q.allocatedList ∧ q.inService i = false

instance (q : MshrQueue n) (i : Fin n) : Decidable (q.Pending i) :=
  inferInstanceAs (Decidable (_ ∧ _))

/-- Each entry is in one of the two lists, once, and the ready list has the
pending ones. -/
structure Partitioned (q : MshrQueue n) : Prop where
  exactlyOne : ∀ i, q.freeList.count i + q.allocatedList.count i = 1
  ready : ∀ i, i ∈ q.readyList ↔ q.Pending i
  once : q.readyList.Nodup
  allocated : q.allocated = q.allocatedList.length
  numInService : q.numInService = (q.allocatedList.filter q.inService).length

theorem Sound.partitioned (sound : q.Sound) : q.Partitioned where
  exactlyOne := Pools.Sound.once sound
  ready _ := Pools.Sound.mem_idle_iff sound
  once := (Pools.Sound.nodup sound).2.2
  allocated := Pools.Sound.size sound
  numInService := by
    rw [← List.countP_eq_length_filter]
    exact Pools.Sound.busySize sound

/-- Over any sequence of operations on a queue of any size, the lists are a
partition and the counters are right. -/
theorem mshrQueue_partitioned (n numReserve : Nat) (ops : List (MshrQueueOp n)) (q : MshrQueue n)
    (ran : Runs.run step (empty n numReserve) ops = some q) : q.Partitioned :=
  ((Sound.empty n numReserve).run ops ran).partitioned

/-- A miss of eight bytes. -/
def miss (addr : Addr) (whenReady order : Nat) : MshrQueueOp n :=
  .allocate addr 64 (.ofRequest {} .readReq addr 8) whenReady order true

/-- Two misses of which one is sent, comes back and is sent again, while the other
loses its only target. -/
theorem mshrQueue_partitioned_two :
    ∃ q, Runs.run step (empty 2 0) [miss 0 0 0, miss 64 5 1, .markInService 0 false, .markPending 0,
        .markInService 0 false, .forceDeallocateTarget 1 9 0] = some q ∧
      q.freeList = [1] ∧ q.allocatedList = [0] ∧ q.numInService = 1 ∧ q.Partitioned := by
  obtain ⟨q, ran, free, allocated, sent⟩ : ∃ q, Runs.run step (empty 2 0) [miss 0 0 0, miss 64 5 1,
      .markInService 0 false, .markPending 0, .markInService 0 false,
      .forceDeallocateTarget 1 9 0] = some q ∧
        q.freeList = [1] ∧ q.allocatedList = [0] ∧ q.numInService = 1 :=
    Runs.exists_run (by decide +kernel)
  exact ⟨q, ran, free, allocated, sent, mshrQueue_partitioned 2 0 _ q ran⟩

/-! ### The order of the ready list -/

def Ordered (q : MshrQueue n) : Prop := KeyedLists.Sorted q.readyTime q.readyList

instance (q : MshrQueue n) : Decidable q.Ordered := inferInstanceAs (Decidable (List.Pairwise _ _))

/-- What the order is for: a pending MSHR that is ready is found, and the next
ready time is the least one. -/
structure Prompt (q : MshrQueue n) : Prop where
  found : ∀ curTick i, q.Pending i → q.readyTime i ≤ curTick →
    ∃ next, q.getNext curTick = some next ∧ q.Pending next ∧ q.readyTime next ≤ curTick
  idle : q.nextReadyTime = none → ∀ i, ¬ q.Pending i
  least : ∀ time, q.nextReadyTime = some time →
    (∃ i, q.Pending i ∧ q.readyTime i = time) ∧ ∀ i, q.Pending i → time ≤ q.readyTime i

theorem Ordered.prompt (ordered : q.Ordered) (parts : q.Partitioned) : q.Prompt := by
  constructor
  · intro _ i pending _
    have mem := (parts.ready i).mpr pending
    unfold getNext
    split
    next empty =>
      rw [empty] at mem
      cases mem
    next front _ starts =>
      -- the first ready time is the least
      have least : q.readyTime front ≤ q.readyTime i :=
        KeyedLists.Sorted.head_le ordered (by rw [starts]; rfl) i mem
      have here : front ∈ q.readyList := by
        rw [starts]
        exact List.mem_cons_self
      rw [if_neg (by omega)]
      exact ⟨front, rfl, (parts.ready front).mp here, by omega⟩
  · intro none_ i pending
    have mem := (parts.ready i).mpr pending
    simp only [nextReadyTime, Option.map_eq_none_iff, List.head?_eq_none_iff] at none_
    rw [none_] at mem
    cases mem
  · intro _ next
    obtain ⟨front, starts, rfl⟩ := Option.map_eq_some_iff.mp next
    constructor
    · exact ⟨front, (parts.ready front).mp (List.mem_of_head? starts), rfl⟩
    · intro i pending
      exact KeyedLists.Sorted.head_le ordered starts i ((parts.ready i).mpr pending)

/-- The ready time fits where the entry stands. -/
def Fits (q : MshrQueue n) (i : Fin n) (time : Nat) : Prop :=
  ∀ front back, q.readyList = front ++ i :: back →
    (∀ j ∈ front, q.readyTime j ≤ time) ∧ ∀ j ∈ back, time ≤ q.readyTime j

/-- An operation that can be done does not put an entry out of place. -/
def KeepsPlace (q : MshrQueue n) (op : MshrQueueOp n) : Prop :=
  (q.step op).isSome = true →
    (∀ i time, q.retimed op = some (i, time) → q.Fits i time) ∧
    ∀ i, op = .moveToFront i → i ∈ q.readyList → ∀ j ∈ q.readyList, q.readyTime i ≤ q.readyTime j

theorem readyTime_store_of_ne (q : MshrQueue n) (cell : MshrCell) {j : Fin n} (other : j ≠ i) :
    (q.store i cell).readyTime j = q.readyTime j := by
  simp [readyTime, other]

/-- An entry that is not in a list can change. -/
theorem sorted_store (cell : MshrCell) {l : List (Fin n)} (absent : i ∉ l)
    (sorted : KeyedLists.Sorted q.readyTime l) :
    KeyedLists.Sorted (q.store i cell).readyTime l := by
  apply (KeyedLists.sorted_congr _).mpr sorted
  intro _ inside
  exact readyTime_store_of_ne q cell fun same => absent (same ▸ inside)

theorem Sound.not_ready_of_sent (sound : q.Sound) (sent : q.inService i = true) :
    i ∉ q.readyList := by
  intro ready
  have unsent := ((Pools.Sound.mem_idle_iff sound).mp ready).2
  rw [sent] at unsent
  cases unsent

theorem Sound.not_ready_of_free (sound : q.Sound) (free : i ∈ q.freeList) : i ∉ q.readyList := by
  intro ready
  exact (Pools.Sound.mem_free_iff sound).mp free ((Pools.Sound.mem_idle_iff sound).mp ready).1

theorem Ordered.erased (ordered : q.Ordered) (sound : q.Sound) (i : Fin n) (cell : MshrCell) :
    KeyedLists.Sorted (q.store i cell).readyTime (q.readyList.erase i) := by
  have once := (Pools.Sound.nodup sound).2.2
  exact sorted_store cell once.not_mem_erase (List.Pairwise.sublist List.erase_sublist ordered)

theorem Ordered.fits_self (ordered : q.Ordered) (i : Fin n) : q.Fits i (q.readyTime i) := by
  intro _ _ parts
  unfold Ordered at ordered
  rw [parts] at ordered
  obtain ⟨_, behind, across⟩ := List.pairwise_append.mp ordered
  exact ⟨fun j mem => across j mem i List.mem_cons_self, (List.pairwise_cons.mp behind).1⟩

/-- An entry that changes in place keeps the order exactly when its ready time
fits. -/
theorem stored_ordered_iff (i : Fin n) (cell : MshrCell) (sound : q.Sound) (ordered : q.Ordered) :
    (q.store i cell).Ordered ↔ q.Fits i cell.readyTime := by
  have time : (q.store i cell).readyTime i = cell.readyTime := by simp [readyTime]
  -- however the list is taken apart, the entry is in neither part
  have apart : ∀ front back, q.readyList = front ++ i :: back → ((q.store i cell).Ordered ↔
        (∀ j ∈ front, q.readyTime j ≤ cell.readyTime) ∧
          ∀ j ∈ back, cell.readyTime ≤ q.readyTime j) := by
    intro front back parts
    have once := (Pools.Sound.nodup sound).2.2
    rw [parts, List.nodup_middle, List.nodup_cons] at once
    have others : ∀ j ∈ front ++ back, (q.store i cell).readyTime j = q.readyTime j := by
      intro j inside
      have other : j ≠ i := fun same => once.1 (same ▸ inside)
      exact readyTime_store_of_ne q cell other
    unfold Ordered at ordered
    rw [parts] at ordered
    have changed := KeyedLists.sorted_changed_iff ordered others
    rw [time, ← parts] at changed
    exact changed
  constructor
  · intro kept front back parts
    exact (apart front back parts).mp kept
  · intro fits
    by_cases ready : i ∈ q.readyList
    · obtain ⟨front, back, parts⟩ := List.append_of_mem ready
      exact (apart front back parts).mpr (fits front back parts)
    · exact sorted_store cell ready ordered

/-- The moves that add and remove entries keep the order; the others keep it
exactly when nothing is put out of place. -/
theorem move_ordered_iff (sound : q.Sound) (ordered : q.Ordered) (move : Move q op t) :
    t.Ordered ↔ (∀ i time, q.retimed op = some (i, time) → q.Fits i time) ∧
      ∀ i, op = .moveToFront i → i ∈ q.readyList →
        ∀ j ∈ q.readyList, q.readyTime i ≤ q.readyTime j := by
  have still : Unmoved op → q.retimed op = none →
      (∀ i time, q.retimed op = some (i, time) → q.Fits i time) ∧
        ∀ i, op = .moveToFront i → i ∈ q.readyList →
          ∀ j ∈ q.readyList, q.readyTime i ≤ q.readyTime j := by
    intro unmoved none_
    constructor
    · intro _ _ some_
      rw [none_] at some_
      cases some_
    · exact fun i same => absurd same (unmoved i)
  cases move with
  | allocated i _ cell free _ unmoved time =>
    have absent := sound.not_ready_of_free (free ▸ List.mem_cons_self : i ∈ q.freeList)
    have kept := sorted_store cell absent ordered
    exact iff_of_true (kept.add i) (still unmoved time)
  | sent i _ _ _ _ unmoved time =>
    exact iff_of_true (ordered.erased sound i _) (still unmoved time)
  | pended i mshr _ sent _ unmoved time =>
    have kept := sorted_store { q.entries i with mshr }
      (sound.not_ready_of_sent sent) ordered
    exact iff_of_true (kept.add i) (still unmoved time)
  | stored i cell _ same unmoved time =>
    rw [stored_ordered_iff i cell sound ordered]
    rcases time with new | ⟨none_, old⟩
    · constructor
      · intro fits
        refine ⟨fun j at_ now => ?_, fun j same => absurd same (unmoved j)⟩
        rw [new] at now
        cases now
        exact fits
      · exact fun keeps => keeps.1 i _ new
    · -- the ready time stays
      rw [old]
      exact iff_of_true (ordered.fits_self i) (still unmoved none_)
  | fronted i which ready =>
    subst which
    -- the entry is first now, so nothing behind it may be ready earlier
    constructor
    · intro kept
      refine ⟨fun j time now => (by cases now), fun j same _ other mem => ?_⟩
      cases same
      by_cases equal : other = i
      · rw [equal]
      · exact (List.pairwise_cons.mp kept).1 other ((List.mem_erase_of_ne equal).mpr mem)
    · intro keeps
      have least := keeps.2 i rfl ready
      exact List.pairwise_cons.mpr ⟨fun j mem => least j (List.mem_of_mem_erase mem),
        List.Pairwise.sublist List.erase_sublist ordered⟩
  | untouched _ which sent =>
    subst which
    refine iff_of_true ordered ⟨fun j time now => (by cases now), fun j same ready => ?_⟩
    cases same
    exact absurd ready (sound.not_ready_of_sent sent)
  | freed i cell _ unmoved time =>
    have kept : KeyedLists.Sorted (q.store i cell).readyTime
        (if q.inService i then q.readyList else q.readyList.erase i) := by
      split
      next sent => exact sorted_store cell (sound.not_ready_of_sent sent) ordered
      next => exact ordered.erased sound i cell
    exact iff_of_true kept (still unmoved time)

/-- The ready list is in order in every state of a run, and what the order is for
holds there, exactly when no operation of the run puts an entry out of place. -/
theorem readyList_ordered_iff (n numReserve : Nat) (ops : List (MshrQueueOp n)) :
    Runs.Along step (fun q op => ∀ t, q.step op = some t → t.Ordered ∧ t.Prompt)
        (empty n numReserve) ops ↔ Runs.Along step KeepsPlace (empty n numReserve) ops := by
  have wf : ∀ (q : MshrQueue n) (op : MshrQueueOp n) (t : MshrQueue n), q.Sound →
      q.step op = some t → t.Sound :=
    fun q op t sound taken => sound.move (step_move taken)
  refine Runs.along_keeps_iff wf ?_ (empty n numReserve) ops (Sound.empty n numReserve) ?_
  · intro q op sound start
    constructor
    · intro kept able
      obtain ⟨t, taken⟩ := Option.isSome_iff_exists.mp able
      exact (move_ordered_iff sound start.1 (step_move taken)).mp (kept t taken).1
    · intro keeps t taken
      have able : (q.step op).isSome = true := by rw [taken]; rfl
      have ordered := (move_ordered_iff sound start.1 (step_move taken)).mpr (keeps able)
      exact ⟨ordered, ordered.prompt (wf q op t sound taken).partitioned⟩
  · have ordered : (empty n numReserve).Ordered := List.Pairwise.nil
    exact ⟨ordered, ordered.prompt (Sound.empty n numReserve).partitioned⟩

/-- The first of two misses is delayed past the second one. The second one is
ready at tick five, where `getNext` returns nothing and the next ready time is
ten. -/
theorem readyList_delayed :
    ∃ q, Runs.run step (empty 2 0) [miss 0 0 0, miss 64 5 1, .delay 0 0 10] = some q ∧
      ¬ q.Ordered ∧ q.Pending 1 ∧ q.readyTime 1 = 5 ∧ q.getNext 5 = none ∧
      q.nextReadyTime = some 10 := by
  exact Runs.exists_run (by decide +kernel)

end MshrQueue

end RasCache.Mem
