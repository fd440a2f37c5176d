import RasCache.Cpu.Rob
import RasCache.Foundation.IndexedQueue
import Mathlib.Algebra.Group.Nat.Defs

/-!
# The load and store queues and the check for ordering violations

Model of `LSQUnit` (`cpu/o3/lsq_unit_impl.hh`) as far as memory-order violations
are concerned. The load queue is a `CircularQueue` whose iterators are running
indices (`base/circular_queue.hh`): an entry outside the queue cannot be read.
Instructions are told apart by their sequence numbers. The translation and the
access itself are the environment's: the events carry what `initiateAcc` leaves
in the instruction. A failed assertion or the use of an entry outside the queue
is `none`.
-/
namespace RasCache.Cpu.LoadStore

open IndexedQueue

structure Params where
  lqEntries : Nat
  sqEntries : Nat
  depCheckShift : Nat
  checkLoads : Bool

/-- The fields of a memory instruction that its address computation sets. -/
structure Access where
  effAddrValid : Bool := false
  effAddr : Nat := 0
  effSize : Nat := 0
  strictlyOrdered : Bool := false
deriving Repr, DecidableEq

structure LoadInst where
  seqNum : InstSeqNum
  access : Access := {}
  hitExternalSnoop : Bool := false
  possibleLoadViolation : Bool := false
deriving Repr, DecidableEq

/-- `lqIt` is the position in the load queue saved at dispatch. A store
conditional or an atomic `writesAtExecute`: it can write back once executed. -/
structure StoreInst where
  seqNum : InstSeqNum
  lqIt : Nat
  writesAtExecute : Bool := false
  canWB : Bool := false
deriving Repr, DecidableEq

structure LsqUnit where
  loadQueue : Queue LoadInst := ⟨1, []⟩
  storeQueue : List StoreInst := []
  memDepViolator : Option InstSeqNum := none

variable (cfg : Params)

/-! ## The check -/

/-- The address of the first byte, in units of the granularity of the check. -/
def firstUnit (effAddr : Nat) : Nat := effAddr >>> cfg.depCheckShift

/-- The address of the last byte, in these units. The sum is taken modulo the
64-bit address space. -/
def lastUnit (effAddr : Nat) (effSize : Nat) : Nat :=
  ((effAddr + effSize + (2 ^ 64 - 1)) % 2 ^ 64) >>> cfg.depCheckShift

/-- The comparison of `checkViolations`. -/
def conflicts (inst ld : Access) : Bool :=
  decide (firstUnit cfg ld.effAddr ≤ lastUnit cfg inst.effAddr inst.effSize) &&
    decide (firstUnit cfg inst.effAddr ≤ lastUnit cfg ld.effAddr ld.effSize)

/-- The loop of `checkViolations` over the loads from the saved position on, with
the recorded violator. -/
def checkViolations (isLoad : Bool) (inst : Access) :
    List LoadInst → Option InstSeqNum → List LoadInst × Option InstSeqNum
  | [], violator => ([], violator)
  | ld :: rest, violator =>
    if !ld.access.effAddrValid || ld.access.strictlyOrdered then
      let result := checkViolations isLoad inst rest violator
      (ld :: result.1, result.2)
    else if conflicts cfg inst ld.access then
      if isLoad then
        if ld.hitExternalSnoop && violator.all (fun seqNum => decide (ld.seqNum < seqNum)) then
          (ld :: rest, some ld.seqNum)
        else
          let result := checkViolations isLoad inst rest violator
          ({ ld with possibleLoadViolation := true } :: result.1, result.2)
      else if violator.any (fun seqNum => decide (seqNum < ld.seqNum)) then
        -- an older violator is recorded already
        (ld :: rest, violator)
      else (ld :: rest, some ld.seqNum)
    else
      let result := checkViolations isLoad inst rest violator
      (ld :: result.1, result.2)

namespace LsqUnit

variable (unit : LsqUnit)

/-- `checkViolations` from an iterator of the load queue on. -/
def checkFrom (isLoad : Bool) (inst : Access) (loadIt : Nat) : Option LsqUnit :=
  match unit.loadQueue.fromIndex loadIt with
  | none => none
  | some rest =>
    let result := checkViolations cfg isLoad inst rest unit.memDepViolator
    some { unit with
      loadQueue := { unit.loadQueue with
        items := unit.loadQueue.items.take (loadIt - unit.loadQueue.head) ++ result.1 }
      memDepViolator := result.2 }

/-! ## Dispatch, execution, commit and squash -/

def insertLoad (seqNum : InstSeqNum) : Option LsqUnit :=
  if cfg.lqEntries ≤ unit.loadQueue.items.length then none
  else some { unit with loadQueue := unit.loadQueue.push { seqNum := seqNum } }

def insertStore (seqNum : InstSeqNum) (writesAtExecute : Bool) : Option LsqUnit :=
  if cfg.sqEntries ≤ unit.storeQueue.length then none
  else
    some { unit with
      storeQueue := unit.storeQueue ++
        [{ seqNum := seqNum, lqIt := unit.loadQueue.finish, writesAtExecute := writesAtExecute }] }

/-- What the address computation leaves in the load. -/
def setAccess (seqNum : InstSeqNum) (access : Access) (ld : LoadInst) : LoadInst :=
  if ld.seqNum = seqNum then { ld with access := access } else ld

/-- `executeLoad`: the address is computed (or given up), and unless the load
waits, faults or is predicated false, the younger loads are checked. -/
def executeLoad (seqNum : InstSeqNum) (access : Access) (completes : Bool) : Option LsqUnit :=
  match unit.loadQueue.items.findIdx? fun ld => decide (ld.seqNum = seqNum) with
  | none => none
  | some offset =>
    let computed := { unit with
      loadQueue := { unit.loadQueue with
        items := unit.loadQueue.items.map (setAccess seqNum access) } }
    if completes && access.effAddrValid && cfg.checkLoads then
      computed.checkFrom cfg true access (unit.loadQueue.head + offset + 1)
    else some computed

/-- What `initiateAcc` reports about a store. -/
structure StoreOutcome where
  translationDelayed : Bool := false
  fault : Bool := false
  predicate : Bool := true
  effAddr : Nat
  effSize : Nat
deriving Repr, DecidableEq

def StoreOutcome.access (outcome : StoreOutcome) : Access where
  effAddrValid := true
  effAddr := outcome.effAddr
  effSize := outcome.effSize

def markExecuted (seqNum : InstSeqNum) (store : StoreInst) : StoreInst :=
  if store.seqNum = seqNum ∧
    store.writesAtExecute = true then { store with canWB := true } else store

def executeStore (seqNum : InstSeqNum) (outcome : StoreOutcome) : Option LsqUnit :=
  match unit.storeQueue.find? fun store => decide (store.seqNum = seqNum) with
  | none => none
  | some store =>
    if outcome.translationDelayed && !outcome.fault then some unit
    else if !outcome.predicate then some unit
    else if outcome.effSize = 0 then some unit
    else if outcome.fault then none
    else
      -- Store conditionals and atomics can write back from here on.
      let marked := { unit with storeQueue := unit.storeQueue.map (markExecuted seqNum) }
      marked.checkFrom cfg false outcome.access store.lqIt

def hitLoad (seqNum : InstSeqNum) (ld : LoadInst) : LoadInst :=
  if ld.seqNum = seqNum then { ld with hitExternalSnoop := true } else ld

/-- A snoop hit the load (`checkSnoop`). -/
def externalSnoop (seqNum : InstSeqNum) : LsqUnit :=
  { unit with
    loadQueue := { unit.loadQueue with items := unit.loadQueue.items.map (hitLoad seqNum) } }

/-- The loop of `commitStores` in age order. -/
def commitStores (youngestInst : InstSeqNum) : List StoreInst → List StoreInst
  | [] => []
  | store :: rest =>
    if store.canWB then store :: commitStores youngestInst rest
    else if youngestInst < store.seqNum then store :: rest
    else { store with canWB := true } :: commitStores youngestInst rest

/-- `commitStores` and `commitLoads`, which the IEW stage calls together. -/
def commit (youngestInst : InstSeqNum) : LsqUnit :=
  { unit with
    storeQueue := commitStores youngestInst unit.storeQueue
    loadQueue := unit.loadQueue.popFrontWhile fun ld => decide (ld.seqNum ≤ youngestInst) }

/-- The oldest store has written back (`completeStore`). -/
def completeStore : Option LsqUnit :=
  match unit.storeQueue with
  | [] => none
  | store :: rest => if store.canWB then some { unit with storeQueue := rest } else none

/-- Stores that can write back are committed already and stay. -/
def squash (squashedNum : InstSeqNum) : LsqUnit where
  loadQueue := unit.loadQueue.popBackWhile fun ld => decide (squashedNum < ld.seqNum)
  memDepViolator :=
    if unit.memDepViolator.any fun seqNum => decide (squashedNum < seqNum) then none
    else unit.memDepViolator
  storeQueue := unit.storeQueue.rdropWhile fun store =>
    decide (squashedNum < store.seqNum) && !store.canWB

def getMemDepViolator : LsqUnit := { unit with memDepViolator := none }

end LsqUnit

inductive Event where
  | insertLoad (seqNum : InstSeqNum)
  | insertStore (seqNum : InstSeqNum) (writesAtExecute : Bool)
  | executeLoad (seqNum : InstSeqNum) (access : Access) (completes : Bool)
  | executeStore (seqNum : InstSeqNum) (outcome : LsqUnit.StoreOutcome)
  | externalSnoop (seqNum : InstSeqNum)
  | commit (youngestInst : InstSeqNum)
  | completeStore
  | squash (squashedNum : InstSeqNum)
  | getMemDepViolator

def step (unit : LsqUnit) : Event → Option LsqUnit
  | .insertLoad seqNum => unit.insertLoad cfg seqNum
  | .insertStore seqNum writesAtExecute => unit.insertStore cfg seqNum writesAtExecute
  | .executeLoad seqNum access completes => unit.executeLoad cfg seqNum access completes
  | .executeStore seqNum outcome => unit.executeStore cfg seqNum outcome
  | .externalSnoop seqNum => some (unit.externalSnoop seqNum)
  | .commit youngestInst => some (unit.commit youngestInst)
  | .completeStore => unit.completeStore
  | .squash squashedNum => some (unit.squash squashedNum)
  | .getMemDepViolator => some unit.getMemDepViolator

end RasCache.Cpu.LoadStore
