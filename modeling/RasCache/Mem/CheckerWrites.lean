import RasCache.Mem.CheckerState
import Mathlib.Data.List.Nodup

/-!
# Writes and the clusters of the memory checker

Starting, completing and aborting a write in a legal history fails no assertion
of the checker and keeps its clusters related to the calls. A new cluster is
opened only when no write is under way; its writes then start strictly after all
earlier ones have completed, unless the last of these completed in the same
tick.
-/
namespace RasCache.Mem.MemChecker

open RegisterHistory

variable {past : List (Call UInt8)} {now limit : Tick} {front : List WriteCluster}
  {cluster : WriteCluster}

/-! ## One write among those of a cluster -/

section Writes

variable {writes : List Transaction} {write : Transaction}
  (distinct : (writes.map Transaction.serial).Nodup) (mem : write ∈ writes)

include distinct mem in
theorem split_of_mem : ∃ before behind, writes = before ++ write :: behind ∧
      (∀ other ∈ before, other.serial ≠ write.serial) ∧
      ∀ other ∈ behind, other.serial ≠ write.serial := by
  obtain ⟨before, behind, rfl⟩ := List.append_of_mem mem
  rw [List.map_append, List.map_cons, List.nodup_middle, List.nodup_cons,
    List.mem_append] at distinct
  refine ⟨before, behind, rfl, fun other listed same => ?_, fun other listed same => ?_⟩
  · exact distinct.1 (.inl (same ▸ List.mem_map_of_mem listed))
  · exact distinct.1 (.inr (same ▸ List.mem_map_of_mem listed))

variable {others : List Transaction} {serial : Serial} {complete : Tick}

theorem map_recordComplete_of_ne (complete : Tick)
    (different : ∀ other ∈ others, other.serial ≠ serial) :
    others.map (WriteCluster.recordComplete serial complete) = others := by
  have same : ∀ other ∈ others, WriteCluster.recordComplete serial complete other = id other :=
    fun other mem => if_neg (different other mem)
  rw [List.map_congr_left same, List.map_id]

theorem filter_serial_of_ne (different : ∀ other ∈ others, other.serial ≠ serial) :
    (others.filter fun other => decide (other.serial ≠ serial)) = others :=
  List.filter_eq_self.mpr fun other mem => decide_eq_true (different other mem)

include distinct mem in
/-- One write fewer is incomplete once it has completed. -/
theorem countP_recordComplete (open_ : write.complete = tickFuture) (real : complete ≠ tickFuture) :
    (writes.map (WriteCluster.recordComplete write.serial complete)).countP
        (fun other => decide (other.complete = tickFuture)) =
      (writes.countP fun other => decide (other.complete = tickFuture)) - 1 := by
  obtain ⟨_, _, rfl, first, second⟩ := split_of_mem distinct mem
  rw [List.map_append, List.map_cons, map_recordComplete_of_ne complete first,
    map_recordComplete_of_ne complete second]
  simp only [List.countP_append, List.countP_cons, WriteCluster.recordComplete,
    if_true, open_, real,
    decide_true, decide_false]
  simp

include distinct mem in
/-- One write fewer is incomplete once it is aborted. -/
theorem countP_filter_serial (open_ : write.complete = tickFuture) :
    (writes.filter fun other => decide (other.serial ≠ write.serial)).countP
        (fun other => decide (other.complete = tickFuture)) =
      (writes.countP fun other => decide (other.complete = tickFuture)) - 1 := by
  obtain ⟨_, _, rfl, first, second⟩ := split_of_mem distinct mem
  rw [List.filter_append, List.filter_cons_of_neg (by simp), filter_serial_of_ne first,
    filter_serial_of_ne second]
  simp only [List.countP_append, List.countP_cons, open_, decide_true]
  simp

include distinct mem in
theorem find?_serial :
    (writes.find? fun other => decide (other.serial = write.serial)) = some write := by
  obtain ⟨before, behind, rfl, first, -⟩ := split_of_mem distinct mem
  refine List.find?_eq_some_iff_append.mpr ⟨by simp, before, behind, rfl, fun other listed => ?_⟩
  simp [first other listed]

include distinct mem in
theorem mem_recordComplete {other : Transaction}
    (listed : other ∈ writes.map (WriteCluster.recordComplete write.serial complete)) :
    (other ∈ writes ∧ other.serial ≠ write.serial) ∨
      other = { write with complete := complete } := by
  obtain ⟨old, present, rfl⟩ := List.mem_map.mp listed
  by_cases same : old.serial = write.serial
  · have equal : old = write := List.inj_on_of_nodup_map distinct present mem same
    rw [equal, WriteCluster.recordComplete, if_pos rfl]
    exact .inr rfl
  · refine .inl ?_
    rw [WriteCluster.recordComplete, if_neg same]
    exact ⟨present, same⟩

theorem recordComplete_serial (serial : Serial) (complete : Tick) (write : Transaction) :
    (WriteCluster.recordComplete serial complete write).serial = write.serial := by
  unfold WriteCluster.recordComplete
  split <;> rfl

theorem recordComplete_keeps (serial : Serial) (complete : Tick) (write : Transaction) :
    (WriteCluster.recordComplete serial complete write).start = write.start ∧
      (WriteCluster.recordComplete serial complete write).data = write.data := by
  unfold WriteCluster.recordComplete
  split <;> exact ⟨rfl, rfl⟩

end Writes

/-! ## Starting a write -/

variable {serial : Serial} {tick : Tick} {data : UInt8} {tracker : ByteTracker}
  {write : Transaction}

theorem WriteCluster.Formed.add (formed : cluster.Formed past)
    (opened : cluster.complete = tickFuture) (started : Call.startWrite serial tick data ∈ past)
    (other : ∀ write ∈ cluster.writes, write.serial ≠ serial)
    (unended : ∀ call ∈ past, call.completed ≠ some serial ∧ call.aborted ≠ some serial)
    (start : Tick) :
    WriteCluster.Formed past { cluster with
      start := start
      numIncomplete := cluster.numIncomplete + 1
      writes := cluster.writes ++ [⟨serial, tick, tickFuture, data⟩] } where
  serials := by
    rw [List.map_append, List.map_singleton, List.nodup_append]
    refine ⟨formed.serials, List.nodup_singleton _, ?_⟩
    intro _ mem _ added same
    obtain ⟨write, listed, rfl⟩ := List.mem_map.mp mem
    exact other write listed (same.trans (List.mem_singleton.mp added))
  started := List.forall_mem_append.mpr ⟨formed.started, List.forall_mem_singleton.mpr started⟩
  kept := List.forall_mem_append.mpr
    ⟨formed.kept, List.forall_mem_singleton.mpr fun call listed => (unended call listed).2⟩
  status := List.forall_mem_append.mpr ⟨formed.status, List.forall_mem_singleton.mpr
    (.inl ⟨rfl, fun call listed => (unended call listed).1⟩)⟩
  count := by
    simp [List.countP_append, formed.count]
  bound := List.forall_mem_append.mpr
    ⟨formed.bound, List.forall_mem_singleton.mpr fun real => absurd rfl real⟩
  maxReal := formed.maxReal
  -- a write is in flight now, so the cluster is neither emptied nor closed
  emptied := by
    intro _ none_left
    exact absurd none_left (Nat.succ_ne_zero _)
  closed real := absurd opened real

theorem WriteCluster.Formed.start (formed : cluster.Formed past)
    (opened : cluster.complete = tickFuture)
    (begun : cluster.start = tickFuture ∨ Begun past cluster.start) (known : Past past now)
    (legal : Legal past (.startWrite serial tick data)) :
    ∃ next, cluster.startWrite serial tick data = some next ∧
      next.Formed (past ++ [.startWrite serial tick data]) ∧
      Begun (past ++ [.startWrite serial tick data]) next.start ∧
      next.writes = cluster.writes ++ [⟨serial, tick, tickFuture, data⟩] := by
  have fresh : Fresh past serial := legal.2
  -- The start of the cluster is that of a write, this one or an earlier one.
  obtain ⟨start, isStart, early, started⟩ : ∃ start,
      (if cluster.start = tickFuture then tick else cluster.start) = start ∧ start ≤ tick ∧
      Begun (past ++ [.startWrite serial tick data]) start := by
    split
    next => exact ⟨tick, rfl, Nat.le_refl _, serial, data, by simp⟩
    next real =>
      have begun := begun.resolve_left real
      refine ⟨cluster.start, rfl, ?_, begun.append _⟩
      obtain ⟨_, _, mem⟩ := begun
      exact legal.1 _ mem
  have quiet : ∀ write ∈ cluster.writes,
      (Call.startWrite serial tick data).completed ≠ some write.serial ∧
        (Call.startWrite serial tick data).aborted ≠ some write.serial := by
    intro _ _
    simp [Call.completed, Call.aborted]
  have other : ∀ write ∈ cluster.writes, write.serial ≠ serial := by
    intro write mem
    exact Nat.ne_of_lt (fresh _ (formed.started write mem) write.serial rfl)
  have unended : ∀ call ∈ past ++ [.startWrite serial tick data],
      call.completed ≠ some serial ∧ call.aborted ≠ some serial := by
    refine List.forall_mem_append.mpr ⟨known.not_ended fresh, List.forall_mem_singleton.mpr ?_⟩
    simp [Call.completed, Call.aborted]
  refine ⟨_, ?_, (formed.append quiet).add opened (by simp) other unended start, started, rfl⟩
  simp [WriteCluster.startWrite, WriteCluster.isComplete, opened, isStart, early]

/-- A write is under way. -/
def InFlight (past : List (Call UInt8)) : Prop :=
  ∃ call ∈ past, ∃ write ∈ call.written, OpenWrite past write.1

def completesWrite (tick : Tick) : Call UInt8 → Bool
  | .completeWrite _ finish => decide (finish = tick)
  | _ => false

/-- Some write completes in the tick. -/
def CompletedIn (calls : List (Call UInt8)) (tick : Tick) : Prop :=
  ∃ call ∈ calls, completesWrite tick call = true

/-- The writes of the earlier clusters complete before a write starts, if another
write is under way or no write has completed in the tick. -/
theorem Target.before_start (target : Target past front cluster limit)
    (bounded : ∀ call ∈ past, call.tick ≤ tick) (spaced : InFlight past ∨ ¬ CompletedIn past tick)
    (earlier : WriteCluster) (mem : earlier ∈ front) (write : Transaction)
    (listed : write ∈ earlier.writes) : write.complete < tick := by
  have formed := target.formed earlier (List.mem_append_left _ mem)
  have done := formed.completed listed
    (formed.complete_of_closed (target.closed earlier mem) listed)
  rcases spaced with ⟨call, -, started, -, open_⟩ | idle
  · -- The write under way is in the last cluster, so it started later.
    obtain ⟨next, present, -, -⟩ := target.write_mem open_
    have after : write.complete < next.start :=
      (List.pairwise_append.mp target.separated).2.2 earlier mem cluster List.mem_cons_self
        write listed next present
    have last := target.formed cluster (List.mem_append_right _ List.mem_cons_self)
    exact Nat.lt_of_lt_of_le after (bounded _ (last.started next present))
  · refine Nat.lt_of_le_of_ne (bounded _ done) fun same => idle ?_
    exact ⟨_, done, decide_eq_true same⟩

theorem Clusters.startWrite (clusters : Clusters past tracker.writeClusters limit)
    (known : Past past now) (legal : Legal past (.startWrite serial tick data))
    (spaced : InFlight past ∨ ¬ CompletedIn past tick) :
    ∃ next, tracker.startWrite serial tick data = some { tracker with writeClusters := next } ∧
      Clusters (past ++ [.startWrite serial tick data]) next limit := by
  have target := clusters.target
  have last := target.formed _ (List.mem_append_right _ List.mem_cons_self)
  obtain ⟨next, taken, formed, begun, added⟩ := last.start target.opened
    (target.begunLast.imp_left And.left) known legal
  refine ⟨tracker.getIncompleteWriteCluster.1 ++ [next],
    by simp [ByteTracker.startWrite, taken], ?_⟩
  refine target.clusters legal formed begun ?_ ?_ ?_
  · -- all writes of an earlier cluster are over before the new one starts
    intro earlier mem write listed
    rw [added, List.forall_mem_append, List.forall_mem_singleton]
    exact ⟨(List.pairwise_append.mp target.separated).2.2 earlier mem _ List.mem_cons_self
      write listed, target.before_start legal.1 spaced earlier mem write listed⟩
  · intro write mem _
    exact ⟨write, added ▸ List.mem_append_left _ mem, rfl, rfl⟩
  · intro _ _ _ same
    cases same
    exact ⟨_, added ▸ List.mem_append_right _ List.mem_cons_self, rfl, rfl⟩

/-! ## Completing a write -/

theorem Target.begun_of_mem (target : Target past front cluster limit)
    (mem : write ∈ cluster.writes) : Begun past cluster.start := by
  rcases target.begunLast with ⟨-, empty⟩ | begun
  · exact absurd empty (List.ne_nil_of_mem mem)
  · exact begun

variable (formed : cluster.Formed past) (opened : cluster.complete = tickFuture)
  (mem : write ∈ cluster.writes) (open_ : write.complete = tickFuture)

include formed opened mem open_ in
theorem WriteCluster.Formed.completed_write (real : tick < tickFuture) :
    WriteCluster.Formed (past ++ [.completeWrite write.serial tick]) { cluster with
      writes := cluster.writes.map (WriteCluster.recordComplete write.serial tick)
      completeMax := max cluster.completeMax tick
      numIncomplete := cluster.numIncomplete - 1
      complete := if cluster.numIncomplete - 1 = 0 then max cluster.completeMax tick
        else cluster.complete } where
  serials := by
    simp only [List.map_map, Function.comp_def, recordComplete_serial]
    exact formed.serials
  started := by
    intro other listed
    refine List.mem_append_left _ ?_
    rcases mem_recordComplete formed.serials mem listed with ⟨old, -⟩ | rfl
    · exact formed.started other old
    · exact formed.started write mem
  kept := by
    intro _ listed
    obtain ⟨old, present, rfl⟩ := List.mem_map.mp listed
    rw [recordComplete_serial, List.forall_mem_append, List.forall_mem_singleton]
    exact ⟨formed.kept old present, nofun⟩
  -- the write that completes is recorded with its end, the others as they were
  status := by
    intro other listed
    rcases mem_recordComplete formed.serials mem listed with ⟨old, different⟩ | rfl
    · rcases formed.status other old with ⟨future, unended⟩ | done
      · exact .inl ⟨future, List.forall_mem_append.mpr ⟨unended, List.forall_mem_singleton.mpr
          fun same => different (Option.some.inj same).symm⟩⟩
      · exact .inr (List.mem_append_left _ done)
    · exact .inr (List.mem_append_right _ List.mem_cons_self)
  count := by
    rw [countP_recordComplete formed.serials mem open_ (Nat.ne_of_lt real), formed.count]
  bound := by
    intro other listed complete
    rcases mem_recordComplete formed.serials mem listed with ⟨old, -⟩ | rfl
    · exact Nat.le_trans (formed.bound other old complete) (Nat.le_max_left _ _)
    · exact Nat.le_max_right _ _
  maxReal := Nat.max_lt.mpr ⟨formed.maxReal, real⟩
  -- the last write to complete closes the cluster, at the latest end there was
  emptied := by
    intro future none_left
    have closes := future.symm.trans (if_pos none_left)
    exact absurd closes.symm (Nat.ne_of_lt (Nat.max_lt.mpr ⟨formed.maxReal, real⟩))
  closed := by
    intro closed
    have none_left : cluster.numIncomplete - 1 = 0 := by
      by_contra left
      exact closed ((if_neg left).trans opened)
    refine ⟨if_pos none_left, none_left, ?_⟩
    exact List.ne_nil_of_mem (List.mem_map_of_mem mem)

include formed opened mem open_ in
/-- The cluster records the completion of a write that is under way. -/
theorem WriteCluster.Formed.complete (real : tick < tickFuture) :
    ∃ next, cluster.completeWrite write.serial tick = some next ∧
      next.Formed (past ++ [.completeWrite write.serial tick]) ∧ next.start = cluster.start ∧
      next.writes = cluster.writes.map (WriteCluster.recordComplete write.serial tick) := by
  have found := find?_serial formed.serials mem
  refine ⟨{ cluster with
      writes := cluster.writes.map (WriteCluster.recordComplete write.serial tick)
      completeMax := max cluster.completeMax tick
      numIncomplete := cluster.numIncomplete - 1
      complete := if cluster.numIncomplete - 1 = 0 then max cluster.completeMax tick
        else cluster.complete }, ?_, ?_, rfl, rfl⟩
  · simp [WriteCluster.completeWrite, found, open_]
  · exact formed.completed_write opened mem open_ real

theorem Clusters.completeWrite (clusters : Clusters past tracker.writeClusters limit)
    (legal : Legal past (.completeWrite serial tick)) (real : tick < tickFuture) :
    ∃ next, tracker.completeWrite serial tick =
        some (ByteTracker.pruneTransactions { tracker with writeClusters := next } tick) ∧
      Clusters (past ++ [.completeWrite serial tick]) next limit := by
  have target := clusters.target
  have last := target.formed _ (List.mem_append_right _ List.mem_cons_self)
  obtain ⟨_, mem, rfl, open_⟩ := target.write_mem legal.2
  obtain ⟨next, taken, formed, sameStart, recorded⟩ := last.complete target.opened mem open_ real
  refine ⟨tracker.getIncompleteWriteCluster.1 ++ [next], by simp [ByteTracker.completeWrite, taken],
    target.clusters legal formed ?_ ?_ ?_ ?_⟩
  · rw [sameStart]
    exact (target.begun_of_mem mem).append _
  · -- a start does not move, so the clusters stay apart
    intro earlier before old listed _ present
    rw [recorded] at present
    obtain ⟨source, stays, rfl⟩ := List.mem_map.mp present
    rw [(recordComplete_keeps _ _ _).1]
    exact (List.pairwise_append.mp target.separated).2.2 earlier before _ List.mem_cons_self
      old listed source stays
  · intro _ stays _
    refine ⟨_, recorded ▸ List.mem_map_of_mem stays, ?_, ?_⟩
    · exact recordComplete_serial _ _ _
    · exact (recordComplete_keeps _ _ _).2
  · intro _ _ _ same
    cases same

/-! ## Aborting a write -/

include formed opened mem open_ in
theorem WriteCluster.Formed.abort (tick : Tick) :
    (cluster.abortWrite write.serial).Formed (past ++ [.abortWrite write.serial tick]) := by
  have found : (cluster.writes.any fun other => decide (other.serial = write.serial)) = true :=
    List.any_eq_true.mpr ⟨write, mem, decide_eq_true rfl⟩
  rw [WriteCluster.abortWrite, if_pos found]
  have kept {other : Transaction}
      (listed : other ∈ cluster.writes.filter fun other => decide (other.serial ≠ write.serial)) :
      other ∈ cluster.writes ∧ other.serial ≠ write.serial := by
    simpa using listed
  -- the others stay, and the call is about none of them
  constructor
  case serials => exact formed.serials.sublist (List.filter_sublist.map _)
  case started =>
    intro other listed
    exact List.mem_append_left _ (formed.started other (kept listed).1)
  case kept =>
    intro other listed
    exact List.forall_mem_append.mpr ⟨formed.kept other (kept listed).1,
      List.forall_mem_singleton.mpr fun same => (kept listed).2 (Option.some.inj same).symm⟩
  case status =>
    intro other listed
    rcases formed.status other (kept listed).1 with ⟨future, unended⟩ | done
    · exact .inl ⟨future, List.forall_mem_append.mpr ⟨unended, List.forall_mem_singleton.mpr nofun⟩⟩
    · exact .inr (List.mem_append_left _ done)
  case count => rw [countP_filter_serial formed.serials mem open_, formed.count]
  case bound =>
    intro other listed complete
    exact formed.bound other (kept listed).1 complete
  case maxReal => exact formed.maxReal
  -- a cluster that loses its last write is not closed: it is empty and stays open
  case emptied =>
    intro future none_left
    by_contra left
    have closes := future.symm.trans (if_pos ⟨none_left, left⟩)
    exact Nat.ne_of_lt formed.maxReal closes.symm
  case closed =>
    intro closed
    have none_left : cluster.numIncomplete - 1 = 0 ∧
        (cluster.writes.filter fun other => decide (other.serial ≠ write.serial)) ≠ [] := by
      by_contra left
      exact closed ((if_neg left).trans opened)
    exact ⟨if_pos none_left, none_left⟩

theorem Clusters.abortWrite (clusters : Clusters past tracker.writeClusters limit)
    (legal : Legal past (.abortWrite serial tick)) : Clusters (past ++ [.abortWrite serial tick])
      (tracker.abortWrite serial).writeClusters limit := by
  have target := clusters.target
  have last := target.formed _ (List.mem_append_right _ List.mem_cons_self)
  obtain ⟨write, mem, rfl, open_⟩ := target.write_mem legal.2
  have found : (tracker.getIncompleteWriteCluster.2.writes.any fun other =>
      decide (other.serial = write.serial)) = true :=
    List.any_eq_true.mpr ⟨write, mem, decide_eq_true rfl⟩
  have formed := last.abort target.opened mem open_ tick
  refine target.clusters legal formed ?_ ?_ ?_ ?_
  · rw [WriteCluster.abortWrite, if_pos found]
    exact (target.begun_of_mem mem).append _
  · intro earlier before old listed later present
    rw [WriteCluster.abortWrite, if_pos found] at present
    exact (List.pairwise_append.mp target.separated).2.2 earlier before _ List.mem_cons_self
      old listed later (List.mem_filter.mp present).1
  · -- only the write that is aborted leaves the cluster
    intro old stays other
    refine ⟨old, ?_, rfl, rfl⟩
    rw [WriteCluster.abortWrite, if_pos found]
    refine List.mem_filter.mpr ⟨stays, decide_eq_true fun same => other ?_⟩
    rw [same]
    rfl
  · intro _ _ _ same
    cases same

end RasCache.Mem.MemChecker
