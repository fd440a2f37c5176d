import RasCache.Foundation.Runs
import Mathlib.Logic.Function.Basic

/-!
# The reorder buffer and the Safe History Buffer

Model of `ROB` (`cpu/o3/rob_impl.hh`): insertion, retirement, the multi-cycle
squash walk, and `updateVisibleState`, which sends the addresses of safe memory
instructions to the Safe History Buffer. A failed assertion of the source, or
the use of an invalid list iterator, is `none`.
-/
namespace RasCache.Cpu

abbrev ThreadID := Nat
abbrev InstSeqNum := Nat
abbrev Addr := Nat

/-- The part of a dynamic instruction the reorder buffer reads or writes.
`shtPkt` is the block address of `SHTpkt` once the load/store queue built it,
and `fault` says that `getFault()` is not `NoFault`. -/
structure DynInst where
  seqNum : InstSeqNum
  isLoad : Bool := false
  isStore : Bool := false
  isControl : Bool := false
  isNonSpeculative : Bool := false
  isStoreConditional : Bool := false
  isFullMemBarrier : Bool := false
  isWriteBarrier : Bool := false
  strictlyOrdered : Bool := false
  readyToCommit : Bool := false
  fault : Bool := false
  isSquashed : Bool := false
  shtPkt : Option Addr := none
  shtInserted : Bool := false
  prevBrsResolved : Bool := false
  prevInstsCompleted : Bool := false
  prevInstsCommitted : Bool := false
  prevBrsCommitted : Bool := false
deriving Repr, DecidableEq

/-- An iterator into a thread's instruction list: `past` is `end()`, and
`dangling` is an iterator whose element was erased. -/
inductive InstIt where
  | past
  | entry (i : Nat)
  | dangling
deriving Repr, DecidableEq

/-- Where an iterator points once the front of the list is erased. -/
def InstIt.eraseFront : InstIt → InstIt
  | .past => .past
  | .entry 0 => .dangling
  | .entry (i + 1) => .entry i
  | .dangling => .dangling

structure ThreadRob where
  instList : List DynInst := []
  squashIt : InstIt := .past
  squashedSeqNum : InstSeqNum := 0
  doneSquashing : Bool := true
deriving Repr, DecidableEq

structure RobParams where
  numEntries : Nat
  squashWidth : Nat
  robInsert : Bool
deriving Repr, DecidableEq

/-- One call of `sendSHBinfo`: the instruction, and what stands before it in the
instruction list of its thread at that moment. -/
structure ShbSend where
  tid : ThreadID
  older : List DynInst
  inst : DynInst
  addr : Addr
deriving Repr, DecidableEq

/-- `activeThreads` is the CPU's list; `activateThread` never enters a thread twice. -/
structure Rob where
  thread : ThreadID → ThreadRob
  numInstsInROB : Nat
  activeThreads : List ThreadID
  nodup : activeThreads.Nodup

namespace Rob

/-- The state `resetState` leaves. -/
def resetState : Rob where
  thread := fun _ => {}
  numInstsInROB := 0
  activeThreads := []
  nodup := List.nodup_nil

def setThread (rob : Rob) (tid : ThreadID) (t : ThreadRob) : Rob :=
  { rob with thread := Function.update rob.thread tid t }

@[simp] theorem setThread_same (rob : Rob) (tid : ThreadID) (t : ThreadRob) :
    (rob.setThread tid t).thread tid = t := by
  simp [setThread]

@[simp] theorem setThread_self (rob : Rob) (tid : ThreadID) :
    rob.setThread tid (rob.thread tid) = rob := by
  simp [setThread]

@[simp] theorem setThread_twice (rob : Rob) (tid : ThreadID) (t u : ThreadRob) :
    (rob.setThread tid t).setThread tid u = rob.setThread tid u := by
  simp [setThread]

/-! ### Insertion and retirement -/

def insertInst (rob : Rob) (cfg : RobParams) (tid : ThreadID) (inst : DynInst) :
    Option Rob :=
  if rob.numInstsInROB = cfg.numEntries then none
  else
    let t := rob.thread tid
    some { rob.setThread tid { t with instList := t.instList ++ [inst] } with
      numInstsInROB := rob.numInstsInROB + 1 }

def retireHead (rob : Rob) (tid : ThreadID) : Option Rob :=
  let t := rob.thread tid
  match t.instList with
  | [] => none
  | inst :: rest =>
    if rob.numInstsInROB = 0 ∨ inst.readyToCommit = false then none
    else
      some { rob.setThread tid
          { t with instList := rest, squashIt := t.squashIt.eraseFront } with
        numInstsInROB := rob.numInstsInROB - 1 }

/-! ### Squashing -/

/-- The squash loop of `doSquash`, at most `n` instructions from entry `i`
towards the head. The iterator becomes `past` when the head was squashed, which
is where the source returns early. -/
def squashLoop (squashedSeqNum : InstSeqNum) : Nat → List DynInst → Nat → List DynInst × InstIt
  | 0, insts, i => (insts, .entry i)
  | n + 1, insts, i =>
    match insts[i]? with
    | none => (insts, .entry i)
    | some inst =>
      if squashedSeqNum < inst.seqNum then
        let marked := insts.set i { inst with isSquashed := true, readyToCommit := true }
        match i with
        | 0 => (marked, .past)
        | j + 1 => squashLoop squashedSeqNum n marked j
      else (insts, .entry i)

/-- `exiting` is `cpu->isThreadExiting(tid)`. -/
def doSquash (cfg : RobParams) (t : ThreadRob) (exiting : Bool) : Option ThreadRob :=
  match t.squashIt with
  | .past => none
  | .dangling => none
  | .entry i => do
    let inst ← t.instList[i]?
    if inst.seqNum < t.squashedSeqNum then
      some { t with squashIt := .past, doneSquashing := true }
    else
      let numInstsToSquash := if exiting then cfg.numEntries else cfg.squashWidth
      match squashLoop t.squashedSeqNum numInstsToSquash t.instList i with
      | (insts, .entry j) => do
        let last ← insts[j]?
        if last.seqNum ≤ t.squashedSeqNum then
          some { t with instList := insts, squashIt := .past, doneSquashing := true }
        else some { t with instList := insts, squashIt := .entry j }
      | (insts, it) => some { t with instList := insts, squashIt := it, doneSquashing := true }

def squash (cfg : RobParams) (t : ThreadRob) (squashNum : InstSeqNum) (exiting : Bool) :
    Option ThreadRob :=
  if t.instList.isEmpty then some t
  else
    doSquash cfg
      { t with
        doneSquashing := false
        squashedSeqNum := squashNum
        squashIt := .entry (t.instList.length - 1) } exiting

/-! ### The walk of `updateVisibleState` -/

/-- The four local flags of the walk. -/
structure PrevState where
  prevInstsComplete : Bool := true
  prevBrsResolved : Bool := true
  prevInstsCommitted : Bool := true
  prevBrsCommitted : Bool := true
deriving Repr, DecidableEq

end Rob

namespace DynInst

/-- Ready to commit, without a fault and not squashed. -/
def clean (inst : DynInst) : Bool :=
  inst.readyToCommit && !inst.fault && !inst.isSquashed

/-- The instructions that set `canCommit` on entering the ROB, so that being
ready says nothing about them. -/
def readyOnEntry (inst : DynInst) : Bool :=
  inst.isNonSpeculative || inst.isStoreConditional || inst.isFullMemBarrier ||
    inst.isWriteBarrier || (inst.isLoad && inst.strictlyOrdered)

def isMem (inst : DynInst) : Bool := inst.isLoad || inst.isStore

/-- A memory instruction whose packet was built and not yet sent. -/
def shtPending (inst : DynInst) : Bool :=
  inst.isMem && !inst.shtInserted && inst.shtPkt.isSome

/-- The instruction lets `prevInstsComplete` stay true. -/
def complete (inst : DynInst) : Bool := inst.clean && !inst.readyOnEntry

end DynInst

namespace Rob

/-- The flags after the walk passed `inst`. -/
def PrevState.pass (p : PrevState) (inst : DynInst) : PrevState where
  prevBrsCommitted := p.prevBrsCommitted && !inst.isControl
  prevBrsResolved := p.prevBrsResolved && (!inst.isControl || inst.clean)
  prevInstsCommitted := false
  prevInstsComplete := p.prevInstsComplete && !inst.readyOnEntry && inst.clean

/-- The load/store branch of the walk for one instruction, with the address it
sends. The assertion on `isPrevBrsResolved` is the `none` case. -/
def visitMem (cfg : RobParams) (doneSquashing : Bool) (p : PrevState) (inst : DynInst) :
    Option (DynInst × Option Addr) :=
  let inst := if p.prevBrsResolved then { inst with prevBrsResolved := true } else inst
  let mark (inst : DynInst) : DynInst :=
    { inst with
      prevInstsCommitted := inst.prevInstsCommitted || p.prevInstsCommitted
      prevBrsCommitted := inst.prevBrsCommitted || p.prevBrsCommitted }
  if p.prevInstsComplete && cfg.robInsert then
    if inst.prevBrsResolved then
      let inst := { inst with prevInstsCompleted := true }
      if !inst.shtInserted && inst.shtPkt.isSome && doneSquashing then
        some (mark { inst with shtInserted := true }, inst.shtPkt)
      else some (mark inst, none)
    else none
  else some (mark inst, none)

def visitInst (cfg : RobParams) (doneSquashing : Bool) (p : PrevState) (inst : DynInst) :
    Option (DynInst × Option Addr) :=
  if inst.isMem then visitMem cfg doneSquashing p inst else some (inst, none)

/-- The walk over one thread: `older` has been passed already. -/
def visitInsts (cfg : RobParams) (tid : ThreadID) (doneSquashing : Bool) :
    PrevState → List DynInst → List DynInst → Option (List DynInst × List ShbSend)
  | _, older, [] => some (older, [])
  | p, older, inst :: rest =>
    if !p.prevInstsComplete && !p.prevBrsResolved then some (older ++ inst :: rest, [])
    else do
      let (inst, sent) ← visitInst cfg doneSquashing p inst
      let (insts, sends) ←
        visitInsts cfg tid doneSquashing (p.pass inst) (older ++ [inst]) rest
      some (insts, (sent.map fun addr => ⟨tid, older, inst, addr⟩).toList ++ sends)

def visitThreads (cfg : RobParams) : List ThreadID → Rob → Option (Rob × List ShbSend)
  | [], rob => some (rob, [])
  | tid :: tids, rob => do
    let t := rob.thread tid
    let (insts, sends) ← visitInsts cfg tid t.doneSquashing {} [] t.instList
    let (rob, more) ← visitThreads cfg tids (rob.setThread tid { t with instList := insts })
    some (rob, sends ++ more)

def updateVisibleState (rob : Rob) (cfg : RobParams) : Option (Rob × List ShbSend) :=
  visitThreads cfg rob.activeThreads rob

/-! ### Steps -/

/-- What the rest of the core can do to the reorder buffer. Instructions are
named by their thread and their position in its list. -/
inductive Event where
  | activateThread (tid : ThreadID)
  | deactivateThread (tid : ThreadID)
  | insertInst (tid : ThreadID) (inst : DynInst)
  | buildShtPacket (tid : ThreadID) (i : Nat) (addr : Addr)
  | setCanCommit (tid : ThreadID) (i : Nat)
  | clearCanCommit (tid : ThreadID) (i : Nat)
  | setFault (tid : ThreadID) (i : Nat)
  | squash (tid : ThreadID) (squashNum : InstSeqNum) (exiting : Bool)
  | doSquash (tid : ThreadID) (exiting : Bool)
  | retireHead (tid : ThreadID)
  | updateVisibleState

def activateThread (rob : Rob) (tid : ThreadID) : Rob :=
  if fresh : tid ∈ rob.activeThreads then rob
  else
    { rob with
      activeThreads := rob.activeThreads ++ [tid]
      nodup := by
        refine List.nodup_append.mpr ⟨rob.nodup, by simp, ?_⟩
        rintro a mem b single rfl
        exact fresh (List.mem_singleton.mp single ▸ mem) }

def deactivateThread (rob : Rob) (tid : ThreadID) : Rob :=
  { rob with
    activeThreads := rob.activeThreads.erase tid
    nodup := rob.nodup.erase tid }

def modifyInst (rob : Rob) (tid : ThreadID) (i : Nat) (f : DynInst → DynInst) : Rob :=
  let t := rob.thread tid
  rob.setThread tid { t with instList := t.instList.modify i f }

def step (cfg : RobParams) (rob : Rob) : Event → Option Rob
  | .activateThread tid => some (rob.activateThread tid)
  | .deactivateThread tid => some (rob.deactivateThread tid)
  | .insertInst tid inst => rob.insertInst cfg tid inst
  | .buildShtPacket tid i addr =>
    some (rob.modifyInst tid i fun inst => { inst with shtPkt := some addr })
  -- `markCompletedInsts` skips what has been squashed in the meantime
  | .setCanCommit tid i =>
    some (rob.modifyInst tid i fun inst =>
      if inst.isSquashed then inst else { inst with readyToCommit := true })
  | .clearCanCommit tid i =>
    some (rob.modifyInst tid i fun inst => { inst with readyToCommit := false })
  | .setFault tid i => some (rob.modifyInst tid i fun inst => { inst with fault := true })
  | .squash tid squashNum exiting =>
    (Rob.squash cfg (rob.thread tid) squashNum exiting).map (rob.setThread tid)
  | .doSquash tid exiting =>
    (Rob.doSquash cfg (rob.thread tid) exiting).map (rob.setThread tid)
  | .retireHead tid => rob.retireHead tid
  | .updateVisibleState => (rob.updateVisibleState cfg).map Prod.fst

end Rob

end RasCache.Cpu
