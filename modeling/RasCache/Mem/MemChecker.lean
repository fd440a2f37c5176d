import RasCache.Foundation.Runs
import RasCache.Foundation.RegisterHistory
import Mathlib.Algebra.Group.Nat.Defs

/-!
# The memory checker

Model of `MemChecker` (`mem/mem_checker.cc` and `mem/mem_checker.hh`): for each
byte a tracker keeps the outstanding reads, what completed reads have observed,
and the writes in clusters of overlapping writes, and prunes what it no longer
needs. A failed assertion is `none`. The order in which the source iterates over
the unordered map of a cluster's writes does not matter; here it is the order in
which they started.
-/
namespace RasCache.Mem.MemChecker

open RegisterHistory

def tickInitial : Tick := 0

/-- `MaxTick`, which no call carries. -/
def tickFuture : Tick := 2 ^ 64 - 1

structure Transaction where
  serial : Serial
  start : Tick
  complete : Tick
  data : UInt8 := 0
deriving Repr, DecidableEq

/-! ## Write clusters -/

structure WriteCluster where
  start : Tick := tickFuture
  complete : Tick := tickFuture
  writes : List Transaction := []
  completeMax : Tick := tickInitial
  numIncomplete : Nat := 0
deriving Repr, DecidableEq

namespace WriteCluster

variable (cluster : WriteCluster)

def isComplete : Bool := cluster.complete != tickFuture

/-- A fresh cluster takes its start from its first write. The branch that reopens
a closed cluster is dead behind the first assertion. -/
def startWrite (serial : Serial) (start : Tick) (data : UInt8) : Option WriteCluster :=
  if cluster.isComplete then none
  else
    let begun := if cluster.start = tickFuture then start else cluster.start
    if begun ≤ start then
      some { cluster with
        start := begun
        numIncomplete := cluster.numIncomplete + 1
        writes := cluster.writes ++ [⟨serial, start, tickFuture, data⟩] }
    else none

/-- The completion of a write is recorded. -/
def recordComplete (serial : Serial) (complete : Tick) (write : Transaction) : Transaction :=
  if write.serial = serial then { write with complete := complete } else write

def completeWrite (serial : Serial) (complete : Tick) : Option WriteCluster :=
  match cluster.writes.find? fun write => decide (write.serial = serial) with
  | none => some cluster
  | some write =>
    if write.complete ≠ tickFuture then none
    else
      let completeMax := max cluster.completeMax complete
      some { cluster with
        writes := cluster.writes.map (recordComplete serial complete)
        completeMax := completeMax
        numIncomplete := cluster.numIncomplete - 1
        -- all writes have completed
        complete := if cluster.numIncomplete - 1 = 0 then completeMax else cluster.complete }

/-- A cluster whose only write is aborted is used again, with its old start. -/
def abortWrite (serial : Serial) : WriteCluster :=
  if cluster.writes.any fun write => decide (write.serial = serial) then
    let writes := cluster.writes.filter fun write => decide (write.serial ≠ serial)
    { cluster with
      writes := writes
      numIncomplete := cluster.numIncomplete - 1
      complete :=
        if cluster.numIncomplete - 1 = 0 ∧ writes ≠ [] then cluster.completeMax
        else cluster.complete }
  else cluster

end WriteCluster

/-! ## The tracker of a byte -/

/-- The list from the iterator on that `lastCompletedTransaction` returns: the
last entry that completed before the tick, or the first entry. -/
def fromLastCompleted {α : Type} (complete : α → Tick) (before : Tick) : List α → List α
  | [] => []
  | first :: rest =>
    if rest.any fun entry => decide (complete entry < before) then
      fromLastCompleted complete before rest
    else first :: rest

/-- The reads in the map are in the order of their serials, which is the order in
which they started. The first observation stands for the initial state. -/
structure ByteTracker where
  outstandingReads : List Transaction := []
  readObservations : List Transaction := [⟨0, tickInitial, tickInitial, 0⟩]
  writeClusters : List WriteCluster := []
deriving Repr, DecidableEq

/-- What the loops of `inExpectedData` have found out. -/
structure Scan where
  found : Bool := false
  wcOverlap : Bool := true
  lastObsValid : Bool
  lastExpectedData : List UInt8 := []
deriving Repr, DecidableEq

/-- The inner loop, over the writes of a cluster. -/
def scanWrites (lastObs : Transaction) (start : Tick) (data : UInt8) :
    List Transaction → Scan → Scan
  | [], scan => scan
  | write :: rest, scan =>
    -- the last observation has the correct value
    if write.complete < lastObs.start then scanWrites lastObs start data rest scan
    else if write.data = data then { scan with found := true }
    else
      let recorded := { scan with lastExpectedData := scan.lastExpectedData ++ [write.data] }
      if start < write.complete then scanWrites lastObs start data rest recorded
      else
        scanWrites lastObs start data rest { recorded with
          wcOverlap := false
          lastObsValid := recorded.lastObsValid && !decide (lastObs.complete < write.start) }

/-- The outer loop, over the clusters from the last one back. -/
def scanClusters (lastObs : Transaction) (start : Tick) (data : UInt8) :
    List WriteCluster → Scan → Scan
  | [], scan => scan
  | cluster :: earlier, scan =>
    if scan.wcOverlap then
      let next := scanWrites lastObs start data cluster.writes scan
      if next.found then next else scanClusters lastObs start data earlier next
    else scan

namespace ByteTracker

variable (tracker : ByteTracker)

def startRead (serial : Serial) (start : Tick) : ByteTracker :=
  { tracker with outstandingReads := tracker.outstandingReads ++ [⟨serial, start, tickFuture, 0⟩] }

def inExpectedData (start complete : Tick) (data : UInt8) : Option Bool :=
  match fromLastCompleted Transaction.complete start tracker.readObservations with
  | [] => none
  | lastObs :: _ =>
    let scan := scanClusters lastObs start data tracker.writeClusters.reverse
      { lastObsValid := lastObs.complete != tickInitial }
    if scan.found then some true
    else if scan.lastObsValid then
      if lastObs.complete ≤ start then some (decide (lastObs.data = data)) else none
    else
      match tracker.writeClusters, tracker.writeClusters.getLast?, scan.wcOverlap with
      | first :: _, some last, true =>
        -- the only writes observed are overlapping, so anything goes
        if first.start < complete ∧ start < last.complete then some true else none
      | _, _, _ =>
        if scan.lastExpectedData.isEmpty then
          if lastObs.complete = tickInitial then some true else none
        else some false

/-- The tick of the first outstanding read, or the present one. -/
def horizon (curTick : Tick) : Tick :=
  match tracker.outstandingReads with
  | [] => curTick
  | first :: _ => first.start

def pruneTransactions (curTick : Tick) : ByteTracker :=
  let before := tracker.horizon curTick
  { tracker with
    readObservations := fromLastCompleted Transaction.complete before tracker.readObservations
    writeClusters := fromLastCompleted WriteCluster.complete before tracker.writeClusters }

/-- A read that is not known returns true. -/
def completeRead (serial : Serial) (complete : Tick) (data : UInt8) :
    Option (ByteTracker × Bool) :=
  match tracker.outstandingReads.find? fun read => decide (read.serial = serial) with
  | none => some (tracker, true)
  | some read =>
    let left := { tracker with
      outstandingReads := tracker.outstandingReads.filter fun other =>
        decide (other.serial ≠ serial) }
    match left.inExpectedData read.start complete data with
    | none => none
    | some result =>
      some (pruneTransactions { left with
        readObservations := left.readObservations ++ [⟨serial, read.start, complete, data⟩] }
        complete, result)

/-- `getIncompleteWriteCluster`: the clusters before it, and the cluster. -/
def getIncompleteWriteCluster : List WriteCluster × WriteCluster :=
  match tracker.writeClusters.getLast? with
  | none => ([], {})
  | some last =>
    if last.isComplete then (tracker.writeClusters, {}) else (tracker.writeClusters.dropLast, last)

def startWrite (serial : Serial) (start : Tick) (data : UInt8) : Option ByteTracker :=
  let target := tracker.getIncompleteWriteCluster
  (target.2.startWrite serial start data).map fun cluster =>
    { tracker with writeClusters := target.1 ++ [cluster] }

def completeWrite (serial : Serial) (complete : Tick) : Option ByteTracker :=
  let target := tracker.getIncompleteWriteCluster
  (target.2.completeWrite serial complete).map fun cluster =>
    pruneTransactions { tracker with writeClusters := target.1 ++ [cluster] } complete

def abortWrite (serial : Serial) : ByteTracker :=
  let target := tracker.getIncompleteWriteCluster
  { tracker with writeClusters := target.1 ++ [target.2.abortWrite serial] }

/-- A call, made at the present tick, with the answer of a completed read. -/
def call : Call UInt8 → Option (ByteTracker × Bool)
  | .startRead serial tick => some (tracker.startRead serial tick, true)
  | .completeRead serial tick data => tracker.completeRead serial tick data
  | .startWrite serial tick data => (tracker.startWrite serial tick data).map (·, true)
  | .completeWrite serial tick => (tracker.completeWrite serial tick).map (·, true)
  | .abortWrite serial _ => some (tracker.abortWrite serial, true)

/-- The call does not fail an assertion and raises no alarm. -/
def accepts (call : Call UInt8) : Option ByteTracker :=
  match tracker.call call with
  | some (next, true) => some next
  | _ => none

end ByteTracker

end RasCache.Mem.MemChecker
