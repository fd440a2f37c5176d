import RasCache.Mem.MemChecker

/-!
# What the memory checker keeps of a history

The state of a tracker is compared with the calls made so far. Nothing that a
read still to be checked depends on is pruned: a write that is no longer in a
cluster was overwritten by one that completed before the first outstanding read
started.
-/
namespace RasCache.Mem.MemChecker

open RegisterHistory

/-! ## The calls made so far -/

/-- The calls were made by now, and operations are told apart by their serials. -/
structure Past (past : List (Call UInt8)) (now : Tick) : Prop where
  bounded : ∀ call ∈ past, call.tick ≤ now
  real : ∀ call ∈ past, call.tick < tickFuture
  unique : ∀ first ∈ past, ∀ second ∈ past, ∀ serial, first.started = some serial →
    second.started = some serial → first = second
  begun : ∀ call ∈ past, ∀ serial, call.completed = some serial ∨ call.aborted = some serial →
    ∃ first ∈ past, first.started = some serial

section Past

variable {past : List (Call UInt8)} {now : Tick} {call : Call UInt8} {serial : Serial}

theorem started_of_readStarted (started : call.readStarted = some serial) :
    call.started = some serial := by
  cases call <;> simp_all [Call.readStarted, Call.started]

theorem started_of_written (started : call.written.map Prod.fst = some serial) :
    call.started = some serial := by
  cases call <;> simp_all [Call.written, Call.started]

/-- A call that starts an operation uses a serial that was not used before. -/
theorem fresh_of_legal (legal : Legal past call) (starts : call.started = some serial) :
    Fresh past serial := by
  cases call with
  | startRead =>
    cases starts
    exact legal.2
  | startWrite =>
    cases starts
    exact legal.2
  | completeRead => cases starts
  | completeWrite => cases starts
  | abortWrite => cases starts

theorem started_of_legal (legal : Legal past call)
    (ends : call.completed = some serial ∨ call.aborted = some serial) :
    ∃ first ∈ past, first.started = some serial := by
  cases call with
  | startRead => rcases ends with ends | ends <;> cases ends
  | startWrite => rcases ends with ends | ends <;> cases ends
  | completeRead =>
    obtain ⟨first, mem, started⟩ := legal.2.1
    rcases ends with ends | ends <;> cases ends
    exact ⟨first, mem, started_of_readStarted started⟩
  | completeWrite =>
    obtain ⟨first, mem, started⟩ := legal.2.1
    rcases ends with ends | ends <;> cases ends
    exact ⟨first, mem, started_of_written started⟩
  | abortWrite =>
    obtain ⟨first, mem, started⟩ := legal.2.1
    rcases ends with ends | ends <;> cases ends
    exact ⟨first, mem, started_of_written started⟩

theorem Past.append (known : Past past now) (legal : Legal past call)
    (real : call.tick < tickFuture) : Past (past ++ [call]) call.tick where
  bounded :=
    List.forall_mem_append.mpr ⟨legal.1, List.forall_mem_singleton.mpr (Nat.le_refl _)⟩
  real := List.forall_mem_append.mpr ⟨known.real, List.forall_mem_singleton.mpr real⟩
  unique := by
    have fresh (before : Call UInt8) (mem : before ∈ past) (serial : Serial)
        (first : before.started = some serial) (second : call.started = some serial) : False :=
      Nat.lt_irrefl serial (fresh_of_legal legal second before mem serial first)
    -- a new serial is larger than all before, so two starts of one serial are one call
    intro first firstIn second secondIn serial one two
    rcases List.mem_append.mp firstIn with firstOld | firstNew <;>
      rcases List.mem_append.mp secondIn with secondOld | secondNew
    · exact known.unique first firstOld second secondOld serial one two
    · cases List.mem_singleton.mp secondNew
      exact (fresh first firstOld serial one two).elim
    · cases List.mem_singleton.mp firstNew
      exact (fresh second secondOld serial two one).elim
    · rw [List.mem_singleton.mp firstNew, List.mem_singleton.mp secondNew]
  begun := by
    intro before mem serial ends
    have found : ∃ first ∈ past, first.started = some serial := by
      rcases List.mem_append.mp mem with old | new
      · exact known.begun before old serial ends
      · cases List.mem_singleton.mp new
        exact started_of_legal legal ends
    obtain ⟨first, old, started⟩ := found
    exact ⟨first, List.mem_append_left _ old, started⟩

theorem Past.not_ended (known : Past past now) (fresh : Fresh past serial) (call : Call UInt8)
    (mem : call ∈ past) : call.completed ≠ some serial ∧ call.aborted ≠ some serial := by
  have unused : ¬ (call.completed = some serial ∨ call.aborted = some serial) := by
    intro ends
    obtain ⟨first, old, started⟩ := known.begun call mem serial ends
    exact Nat.lt_irrefl serial (fresh first old serial started)
  exact not_or.mp unused

end Past

/-! ## Reads -/

/-- The outstanding reads, in the order in which they started. -/
structure Reads (past : List (Call UInt8)) (outstanding : List Transaction) : Prop where
  started : ∀ read ∈ outstanding, Call.startRead read.serial read.start ∈ past
  present : ∀ serial, OpenRead past serial → ∃ read ∈ outstanding, read.serial = serial
  sorted : outstanding.Pairwise fun read later => read.start ≤ later.start

/-- An observation is a completed read, or says nothing. -/
def Observes (past : List (Call UInt8)) (observation : Transaction) : Prop :=
  (observation.start = tickInitial ∧ observation.complete = tickInitial) ∨
  (Call.startRead observation.serial observation.start ∈ past ∧
    Call.completeRead observation.serial observation.complete observation.data ∈ past ∧
    observation.start ≤ observation.complete)

/-- The first observation says nothing to reads that start from the limit on, or
completed before the limit. -/
structure Observations (past : List (Call UInt8)) (observations : List Transaction) (limit : Tick) :
    Prop where
  each : ∀ observation ∈ observations, Observes past observation
  first : ∃ head rest, observations = head :: rest ∧
    (head.complete = tickInitial ∨ head.complete < limit)

variable {later tick : Tick}

section Reads

variable {past : List (Call UInt8)} {outstanding observations : List Transaction}
  {limit : Tick} {serial : Serial} {call : Call UInt8}

theorem open_of_append (opened : OpenRead (past ++ [call]) serial) :
    call.readStarted = some serial ∨ OpenRead past serial := by
  obtain ⟨⟨first, mem, started⟩, unfinished⟩ := opened
  rcases List.mem_append.mp mem with old | new
  · exact .inr ⟨⟨first, old, started⟩, fun other listed =>
      unfinished other (List.mem_append_left _ listed)⟩
  · cases List.mem_singleton.mp new
    exact .inl started

theorem Reads.append (reads : Reads past outstanding) (other : call.readStarted = none) :
    Reads (past ++ [call]) outstanding where
  started read mem := List.mem_append_left _ (reads.started read mem)
  present := by
    intro serial opened
    rcases open_of_append opened with starts | old
    · rw [other] at starts
      cases starts
    · exact reads.present serial old
  sorted := reads.sorted

theorem Reads.start (reads : Reads past outstanding) (bounded : ∀ call ∈ past, call.tick ≤ tick) :
    Reads (past ++ [.startRead serial tick]) (outstanding ++ [⟨serial, tick, tickFuture, 0⟩]) where
  started := by
    refine List.forall_mem_append.mpr ⟨fun read old => ?_, List.forall_mem_singleton.mpr ?_⟩
    · exact List.mem_append_left _ (reads.started read old)
    · exact List.mem_append_right _ List.mem_cons_self
  present := by
    intro other opened
    rcases open_of_append opened with starts | old
    · cases starts
      exact ⟨_, List.mem_append_right _ List.mem_cons_self, rfl⟩
    · obtain ⟨read, mem, same⟩ := reads.present other old
      exact ⟨read, List.mem_append_left _ mem, same⟩
  sorted := by
    refine List.pairwise_append.mpr ⟨reads.sorted, List.pairwise_singleton _ _, ?_⟩
    intro read mem _ new
    cases List.mem_singleton.mp new
    exact bounded _ (reads.started read mem)

theorem Reads.remove (reads : Reads past outstanding)
    (done : ∃ call ∈ past, call.completed = some serial) :
    Reads past (outstanding.filter fun other => decide (other.serial ≠ serial)) where
  started read mem := reads.started read (List.mem_filter.mp mem).1
  present := by
    intro other opened
    obtain ⟨read, mem, rfl⟩ := reads.present other opened
    refine ⟨read, List.mem_filter.mpr ⟨mem, decide_eq_true fun same => ?_⟩, rfl⟩
    obtain ⟨call, listed, completes⟩ := done
    exact opened.2 call listed (same ▸ completes)
  sorted := reads.sorted.sublist List.filter_sublist

variable {observation : Transaction}

theorem Observes.start_le (observes : Observes past observation) :
    observation.start ≤ observation.complete := by
  rcases observes with ⟨start, complete⟩ | ⟨-, -, ordered⟩
  · exact Nat.le_of_eq (start.trans complete.symm)
  · exact ordered

section

variable (known : Observations past observations limit)
include known

theorem Observations.append (call : Call UInt8) :
    Observations (past ++ [call]) observations limit where
  each := by
    intro observation mem
    rcases known.each observation mem with nothing | ⟨started, completed, ordered⟩
    · exact .inl nothing
    · exact .inr ⟨List.mem_append_left _ started, List.mem_append_left _ completed, ordered⟩
  first := known.first

theorem Observations.mono (le : limit ≤ later) : Observations past observations later  where
  each := known.each
  first := by
    obtain ⟨head, rest, same, early⟩ := known.first
    exact ⟨head, rest, same, early.imp_right fun before => Nat.lt_of_lt_of_le before le⟩

theorem Observations.add (observes : Observes past observation) :
    Observations past (observations ++ [observation]) limit where
  each := List.forall_mem_append.mpr ⟨known.each, List.forall_mem_singleton.mpr observes⟩
  first := by
    obtain ⟨head, rest, same, early⟩ := known.first
    exact ⟨head, rest ++ [observation], by rw [same]; rfl, early⟩

end

end Reads

/-! ## The iterator that prunes -/

/-- The iterator of `lastCompletedTransaction` stands at an entry that completed
before the tick, or at the first entry because none did. -/
theorem fromLastCompleted_spec {α : Type} (complete : α → Tick) (before : Tick) (first : α)
    (rest : List α) : ∃ gone entry behind, first :: rest = gone ++ entry :: behind ∧
      fromLastCompleted complete before (first :: rest) = entry :: behind ∧
      (complete entry < before ∨
        (gone = [] ∧ ∀ other ∈ first :: rest, ¬ complete other < before)) := by
  induction rest generalizing first with
  | nil =>
    refine ⟨[], first, [], rfl, rfl, ?_⟩
    simp [Nat.lt_or_ge]
  | cons second rest ih =>
    -- the entry is the last one that ended in time, or the first if there is none
    by_cases later : ((second :: rest).any fun entry => decide (complete entry < before)) = true
    · obtain ⟨gone, entry, behind, split, same, early | ⟨-, late⟩⟩ := ih second
      · refine ⟨first :: gone, entry, behind, by rw [split]; rfl, ?_, .inl early⟩
        rw [fromLastCompleted, if_pos later, same]
      · obtain ⟨other, mem, early⟩ := List.any_eq_true.mp later
        exact absurd (of_decide_eq_true early) (late other mem)
    · refine ⟨[], first, second :: rest, rfl, by rw [fromLastCompleted, if_neg later], ?_⟩
      rcases Nat.lt_or_ge (complete first) before with early | late
      · exact .inl early
      · refine .inr ⟨rfl, fun other mem early => ?_⟩
        rcases List.mem_cons.mp mem with rfl | behind
        · exact Nat.not_lt.mpr late early
        · exact later (List.any_eq_true.mpr ⟨other, behind, decide_eq_true early⟩)

theorem Observations.last {past : List (Call UInt8)} {observations : List Transaction}
    {limit : Tick} (known : Observations past observations limit) : ∃ lastObs behind,
      fromLastCompleted Transaction.complete limit observations = lastObs :: behind ∧
      (∀ observation ∈ lastObs :: behind, observation ∈ observations) ∧
      (lastObs.complete = tickInitial ∨ lastObs.complete < limit) := by
  obtain ⟨head, rest, rfl, early⟩ := known.first
  obtain ⟨_, lastObs, behind, split, same, place⟩ :=
    fromLastCompleted_spec Transaction.complete limit head rest
  refine ⟨lastObs, behind, same, fun observation mem => ?_, ?_⟩
  · rw [split]
    exact List.mem_append_right _ mem
  · rcases place with before | ⟨rfl, -⟩
    · exact .inr before
    · cases split
      exact early

theorem Observations.prune {past : List (Call UInt8)} {observations : List Transaction}
    {limit : Tick} (known : Observations past observations limit) :
    Observations past (fromLastCompleted Transaction.complete limit observations) limit := by
  obtain ⟨lastObs, behind, same, kept, early⟩ := known.last
  rw [same]
  exact ⟨fun observation mem => known.each observation (kept observation mem),
    lastObs, behind, rfl, early⟩

/-! ## Write clusters -/

/-- A cluster and the calls it comes from. -/
structure WriteCluster.Formed (past : List (Call UInt8)) (cluster : WriteCluster) : Prop where
  serials : (cluster.writes.map Transaction.serial).Nodup
  started : ∀ write ∈ cluster.writes, Call.startWrite write.serial write.start write.data ∈ past
  kept : ∀ write ∈ cluster.writes, ∀ call ∈ past, call.aborted ≠ some write.serial
  status : ∀ write ∈ cluster.writes,
    (write.complete = tickFuture ∧ ∀ call ∈ past, call.completed ≠ some write.serial) ∨
      Call.completeWrite write.serial write.complete ∈ past
  count : cluster.numIncomplete =
    cluster.writes.countP fun write => decide (write.complete = tickFuture)
  bound : ∀ write ∈ cluster.writes, write.complete ≠ tickFuture →
    write.complete ≤ cluster.completeMax
  maxReal : cluster.completeMax < tickFuture
  emptied : cluster.complete = tickFuture → cluster.numIncomplete = 0 → cluster.writes = []
  closed : cluster.complete ≠ tickFuture →
    cluster.complete = cluster.completeMax ∧ cluster.numIncomplete = 0 ∧ cluster.writes ≠ []

/-- A write started at the tick. -/
def Begun (past : List (Call UInt8)) (tick : Tick) : Prop :=
  ∃ serial data, Call.startWrite serial tick data ∈ past

/-- The clusters follow each other, only the last one is open, and what is not in
them was overwritten before the limit. -/
structure Clusters (past : List (Call UInt8)) (clusters : List WriteCluster) (limit : Tick) :
    Prop where
  formed : ∀ cluster ∈ clusters, cluster.Formed past
  begun : ∀ cluster ∈ clusters, Begun past cluster.start
  separated : clusters.Pairwise fun earlier later =>
    ∀ write ∈ earlier.writes, ∀ next ∈ later.writes, write.complete < next.start
  closed : ∀ cluster ∈ clusters.dropLast, cluster.complete ≠ tickFuture
  covered : ∀ serial start data, Call.startWrite serial start data ∈ past →
    (∀ call ∈ past, call.aborted ≠ some serial) →
    (∃ cluster ∈ clusters, ∃ write ∈ cluster.writes, write.serial = serial ∧ write.data = data) ∨
      ∃ ended, Call.completeWrite serial ended ∈ past ∧ Overwritten past ended limit

section Clusters

variable {past : List (Call UInt8)} {now limit : Tick} {clusters : List WriteCluster}
  {cluster : WriteCluster} {write : Transaction} {call : Call UInt8}

theorem WriteCluster.Formed.completed (formed : cluster.Formed past)
    (mem : write ∈ cluster.writes) (complete : write.complete ≠ tickFuture) :
    Call.completeWrite write.serial write.complete ∈ past := by
  rcases formed.status write mem with ⟨future, -⟩ | done
  · exact absurd future complete
  · exact done

theorem WriteCluster.Formed.complete_of_closed (formed : cluster.Formed past)
    (closed : cluster.complete ≠ tickFuture) (mem : write ∈ cluster.writes) :
    write.complete ≠ tickFuture := by
  have none_open := (formed.count.symm.trans (formed.closed closed).2.1)
  simpa using List.countP_eq_zero.mp none_open write mem

theorem WriteCluster.Formed.append (formed : cluster.Formed past)
    (quiet : ∀ write ∈ cluster.writes, call.completed ≠ some write.serial ∧
      call.aborted ≠ some write.serial) :
    cluster.Formed (past ++ [call]) where
  serials := formed.serials
  started write mem := List.mem_append_left _ (formed.started write mem)
  -- the call is about no write of the cluster
  kept write mem := List.forall_mem_append.mpr
    ⟨formed.kept write mem, List.forall_mem_singleton.mpr (quiet write mem).2⟩
  status := by
    intro write mem
    rcases formed.status write mem with ⟨future, open_⟩ | done
    · exact .inl ⟨future, List.forall_mem_append.mpr
        ⟨open_, List.forall_mem_singleton.mpr (quiet write mem).1⟩⟩
    · exact .inr (List.mem_append_left _ done)
  count := formed.count
  bound := formed.bound
  maxReal := formed.maxReal
  emptied := formed.emptied
  closed := formed.closed

theorem Begun.append (begun : Begun past tick) (call : Call UInt8) :
    Begun (past ++ [call]) tick := by
  obtain ⟨serial, data, mem⟩ := begun
  exact ⟨serial, data, List.mem_append_left _ mem⟩

section

variable (known : Clusters past clusters limit)
include known

theorem Clusters.mono (le : limit ≤ later) : Clusters past clusters later  where
  formed := known.formed
  begun := known.begun
  separated := known.separated
  closed := known.closed
  covered := by
    intro serial start data started kept
    refine (known.covered serial start data started kept).imp_right ?_
    rintro ⟨ended, completed, hidden⟩
    exact ⟨ended, completed, hidden.mono (fun _ mem => mem) le⟩

theorem Clusters.append
    (quiet : ∀ cluster ∈ clusters, ∀ write ∈ cluster.writes, call.completed ≠ some write.serial ∧
      call.aborted ≠ some write.serial)
    (other : call.written = none) : Clusters (past ++ [call]) clusters limit where
  formed cluster mem := (known.formed cluster mem).append (quiet cluster mem)
  begun cluster mem := (known.begun cluster mem).append call
  separated := known.separated
  closed := known.closed
  covered := by
    intro serial start data started kept
    have old : Call.startWrite serial start data ∈ past := by
      rcases List.mem_append.mp started with old | new
      · exact old
      · cases List.mem_singleton.mp new
        cases other
    rcases known.covered serial start data old fun before mem =>
      kept before (List.mem_append_left _ mem) with present | ⟨ended, completed, hidden⟩
    · exact .inl present
    · exact .inr ⟨ended, List.mem_append_left _ completed,
        hidden.mono (fun _ mem => List.mem_append_left _ mem) (Nat.le_refl _)⟩

/-- A write of a pruned cluster was overwritten by the writes of the cluster that
is now the first. -/
theorem Clusters.prune (real : ∀ call ∈ past, call.tick < tickFuture)
    (limited : limit ≤ tickFuture) :
    Clusters past (fromLastCompleted WriteCluster.complete limit clusters) limit := by
  cases clusters with
  | nil => exact known
  | cons head rest =>
    obtain ⟨gone, entry, behind, split, same, place⟩ :=
      fromLastCompleted_spec WriteCluster.complete limit head rest
    rw [same]
    rw [split] at known
    have suffix : (entry :: behind).Sublist (gone ++ entry :: behind) :=
      List.sublist_append_right _ _
    refine ⟨fun cluster mem => known.formed cluster (suffix.subset mem),
      fun cluster mem => known.begun cluster (suffix.subset mem),
      known.separated.sublist suffix, ?_, ?_⟩
    · intro cluster mem
      refine known.closed cluster ?_
      rw [List.dropLast_append_of_ne_nil (List.cons_ne_nil _ _)]
      exact List.mem_append_right _ mem
    · intro serial start data started kept
      rcases known.covered serial start data started kept with
        ⟨cluster, listed, write, mem, rfl, value⟩ | hidden
      · rcases List.mem_append.mp listed with pruned | stays
        · -- Every write of the first remaining cluster comes after the write.
          rcases place with early | ⟨rfl, -⟩
          · have formed := known.formed entry (List.mem_append_right _ List.mem_cons_self)
            have closed : entry.complete ≠ tickFuture :=
              Nat.ne_of_lt (Nat.lt_of_lt_of_le early limited)
            obtain ⟨isMax, -, nonempty⟩ := formed.closed closed
            obtain ⟨next, present⟩ := List.exists_mem_of_ne_nil _ nonempty
            have nextReal := formed.complete_of_closed closed present
            have after : write.complete < next.start :=
              (List.pairwise_append.mp known.separated).2.2 cluster pruned entry
                List.mem_cons_self write mem next present
            have before : next.complete < limit :=
              Nat.lt_of_le_of_lt (formed.bound next present nextReal) (isMax ▸ early)
            have writeReal : write.complete ≠ tickFuture :=
              Nat.ne_of_lt (Nat.lt_trans after (real _ (formed.started next present)))
            exact .inr ⟨write.complete, (known.formed cluster listed).completed mem writeReal,
              next.serial, next.start, next.data, next.complete, formed.started next present,
              formed.completed present nextReal, after, before⟩
          · cases pruned
        · exact .inl ⟨cluster, stays, write, mem, rfl, value⟩
      · exact .inr hidden

end

end Clusters

/-! ## The cluster that takes the calls -/

/-- The clusters, with the one apart that writes are started in. -/
structure Target (past : List (Call UInt8)) (front : List WriteCluster) (cluster : WriteCluster)
    (limit : Tick) : Prop where
  formed : ∀ earlier ∈ front ++ [cluster], earlier.Formed past
  begun : ∀ earlier ∈ front, Begun past earlier.start
  begunLast : (cluster.start = tickFuture ∧ cluster.writes = []) ∨ Begun past cluster.start
  separated : (front ++ [cluster]).Pairwise fun earlier later =>
    ∀ write ∈ earlier.writes, ∀ next ∈ later.writes, write.complete < next.start
  closed : ∀ earlier ∈ front, earlier.complete ≠ tickFuture
  opened : cluster.complete = tickFuture
  covered : ∀ serial start data, Call.startWrite serial start data ∈ past →
    (∀ call ∈ past, call.aborted ≠ some serial) →
    (∃ earlier ∈ front ++ [cluster], ∃ write ∈ earlier.writes,
      write.serial = serial ∧ write.data = data) ∨
      ∃ ended, Call.completeWrite serial ended ∈ past ∧ Overwritten past ended limit

section Target

variable {past : List (Call UInt8)} {now limit : Tick} {front : List WriteCluster}
  {cluster : WriteCluster}

theorem WriteCluster.formed_empty : WriteCluster.Formed past {} where
  serials := List.nodup_nil
  started write mem := by cases mem
  kept write mem := by cases mem
  status write mem := by cases mem
  count := rfl
  bound write mem := by cases mem
  maxReal := by decide
  emptied _ _ := rfl
  closed real := absurd rfl real

/-- What `getIncompleteWriteCluster` returns. -/
theorem Clusters.target {tracker : ByteTracker}
    (known : Clusters past tracker.writeClusters limit) :
    Target past tracker.getIncompleteWriteCluster.1 tracker.getIncompleteWriteCluster.2 limit := by
  -- A new cluster behind closed ones.
  have fresh (closed : ∀ earlier ∈ tracker.writeClusters, earlier.complete ≠ tickFuture) :
      Target past tracker.writeClusters {} limit := by
    refine ⟨?_, known.begun, .inl ⟨rfl, rfl⟩, ?_, closed, rfl, ?_⟩
    · exact List.forall_mem_append.mpr
        ⟨known.formed, List.forall_mem_singleton.mpr WriteCluster.formed_empty⟩
    · refine List.pairwise_append.mpr ⟨known.separated, List.pairwise_singleton _ _, ?_⟩
      intro _ _ _ new _ _ _ present
      cases List.mem_singleton.mp new
      cases present
    · intro serial start data started kept
      refine (known.covered serial start data started kept).imp_left ?_
      rintro ⟨earlier, mem, rest⟩
      exact ⟨earlier, List.mem_append_left _ mem, rest⟩
  cases ends : tracker.writeClusters.getLast? with
  | none =>
    have empty := List.getLast?_eq_none_iff.mp ends
    simp only [ByteTracker.getIncompleteWriteCluster, ends]
    rw [empty] at fresh
    exact fresh fun earlier mem => by cases mem
  | some last =>
    obtain ⟨front, split⟩ := List.getLast?_eq_some_iff.mp ends
    have dropped : tracker.writeClusters.dropLast = front := by simp [split]
    simp only [ByteTracker.getIncompleteWriteCluster, ends]
    split
    next complete =>
      apply fresh
      rw [split, List.forall_mem_append, List.forall_mem_singleton]
      refine ⟨fun earlier old => known.closed earlier (dropped ▸ old), ?_⟩
      simpa [WriteCluster.isComplete] using complete
    next incomplete =>
      rw [dropped]
      rw [split] at known
      have opened : last.complete = tickFuture := by
        simpa [WriteCluster.isComplete] using incomplete
      refine ⟨known.formed, fun earlier mem => ?_, .inr ?_, known.separated, ?_, opened,
        known.covered⟩
      · exact known.begun earlier (List.mem_append_left _ mem)
      · exact known.begun last (List.mem_append_right _ List.mem_cons_self)
      · simpa using known.closed

variable {call : Call UInt8} {serial : Serial}

/-- What a call ends has not completed before. -/
theorem not_completed_of_legal (legal : Legal past call)
    (ends : call.completed = some serial ∨ call.aborted = some serial) {before : Call UInt8}
    (mem : before ∈ past) : before.completed ≠ some serial := by
  cases call with
  | startRead => rcases ends with ends | ends <;> cases ends
  | startWrite => rcases ends with ends | ends <;> cases ends
  | completeRead =>
    rcases ends with ends | ends <;> cases ends
    exact legal.2.2 before mem
  | completeWrite =>
    rcases ends with ends | ends <;> cases ends
    exact (legal.2.2 before mem).1
  | abortWrite =>
    rcases ends with ends | ends <;> cases ends
    exact (legal.2.2 before mem).1

theorem WriteCluster.Formed.quiet_of_closed (formed : cluster.Formed past)
    (closed : cluster.complete ≠ tickFuture) (legal : Legal past call) (write : Transaction)
    (mem : write ∈ cluster.writes) :
    call.completed ≠ some write.serial ∧ call.aborted ≠ some write.serial := by
  have done := formed.completed mem (formed.complete_of_closed closed mem)
  have unended : ¬ (call.completed = some write.serial ∨ call.aborted = some write.serial) :=
    fun ends => not_completed_of_legal legal ends done rfl
  exact not_or.mp unended

theorem Target.write_mem (target : Target past front cluster limit)
    (open_ : OpenWrite past serial) :
    ∃ write ∈ cluster.writes, write.serial = serial ∧ write.complete = tickFuture := by
  obtain ⟨⟨call, mem, _⟩, unended⟩ := open_
  obtain ⟨tick, data, rfl⟩ : ∃ tick data, call = .startWrite serial tick data := by
    cases call <;> simp_all [Call.written]
  rcases target.covered serial tick data mem fun other listed => (unended other listed).2 with
    ⟨earlier, listed, write, present, rfl, -⟩ | ⟨ended, completed, -⟩
  · have formed := target.formed earlier listed
    have future : write.complete = tickFuture := by
      by_contra real
      exact (unended _ (formed.completed present real)).1 rfl
    rcases List.mem_append.mp listed with old | last
    · exact absurd future (formed.complete_of_closed (target.closed earlier old) present)
    · cases List.mem_singleton.mp last
      exact ⟨write, present, rfl, future⟩
  · exact absurd rfl (unended _ completed).1

theorem Target.clusters (target : Target past front cluster limit) (legal : Legal past call)
    {next : WriteCluster} (formed : next.Formed (past ++ [call]))
    (begun : Begun (past ++ [call]) next.start)
    (behind : ∀ earlier ∈ front, ∀ write ∈ earlier.writes, ∀ later ∈ next.writes,
      write.complete < later.start)
    (kept : ∀ write ∈ cluster.writes, call.aborted ≠ some write.serial →
      ∃ later ∈ next.writes, later.serial = write.serial ∧ later.data = write.data)
    (added : ∀ serial start data, call = .startWrite serial start data →
      ∃ write ∈ next.writes, write.serial = serial ∧ write.data = data) :
    Clusters (past ++ [call]) (front ++ [next]) limit where
  formed := by
    refine List.forall_mem_append.mpr ⟨fun earlier old => ?_, List.forall_mem_singleton.mpr formed⟩
    -- a closed cluster has no write the call can be about
    have before := target.formed earlier (List.mem_append_left _ old)
    exact before.append (before.quiet_of_closed (target.closed earlier old) legal)
  begun := List.forall_mem_append.mpr ⟨fun earlier old => (target.begun earlier old).append call,
    List.forall_mem_singleton.mpr begun⟩
  separated := by
    refine List.pairwise_append.mpr ⟨(List.pairwise_append.mp target.separated).1,
      List.pairwise_singleton _ _, ?_⟩
    intro earlier mem _ new
    cases List.mem_singleton.mp new
    exact behind earlier mem
  closed := by
    intro earlier mem
    rw [List.dropLast_concat] at mem
    exact target.closed earlier mem
  covered := by
    intro serial start data started unaborted
    have present (write : Transaction) (mem : write ∈ next.writes) (same : write.serial = serial)
        (value : write.data = data) : ∃ earlier ∈ front ++ [next], ∃ write ∈ earlier.writes,
          write.serial = serial ∧ write.data = data :=
      ⟨next, List.mem_append_right _ List.mem_cons_self, write, mem, same, value⟩
    -- a write that was seen is where it was, or in the new last cluster
    rcases List.mem_append.mp started with old | new
    · rcases target.covered serial start data old fun before mem =>
        unaborted before (List.mem_append_left _ mem) with
        ⟨earlier, listed, write, mem, rfl, rfl⟩ | ⟨ended, completed, hidden⟩
      · rcases List.mem_append.mp listed with before | last
        · exact .inl ⟨earlier, List.mem_append_left _ before, write, mem, rfl, rfl⟩
        · cases List.mem_singleton.mp last
          obtain ⟨later, stays, same, value⟩ := kept write mem
            (unaborted call (List.mem_append_right _ List.mem_cons_self))
          exact .inl (present later stays same value)
      · exact .inr ⟨ended, List.mem_append_left _ completed,
          hidden.mono (fun _ mem => List.mem_append_left _ mem) (Nat.le_refl _)⟩
    · obtain ⟨write, mem, same, value⟩ := added serial start data (List.mem_singleton.mp new).symm
      exact .inl (present write mem same value)

end Target

end RasCache.Mem.MemChecker
