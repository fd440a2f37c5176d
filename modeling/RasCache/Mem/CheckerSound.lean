import RasCache.Mem.CheckerScan
import RasCache.Mem.CheckerWrites

/-!
# The memory checker raises no false alarm

If the history of a byte is linearizable and reads and writes do not meet in one
tick in one of three ways, the checker accepts every read and fails no assertion.
Each of the three ways can make it fail.
-/
namespace RasCache.Mem.MemChecker

open RegisterHistory

/-! ## Ticks that meet -/

def startsWrite (tick : Tick) : Call UInt8 → Bool
  | .startWrite _ start _ => decide (start = tick)
  | _ => false

/-- Some write starts in the tick. -/
def StartedIn (calls : List (Call UInt8)) (tick : Tick) : Prop :=
  ∃ call ∈ calls, startsWrite tick call = true

/-- No write starts in the tick in which the call completes a read. -/
def EndsApart (calls : List (Call UInt8)) : Call UInt8 → Prop
  | .completeRead _ tick _ => ¬ StartedIn calls tick
  | _ => True

/-- No write completes in the tick in which the call starts a read. -/
def StartsApart (calls : List (Call UInt8)) : Call UInt8 → Prop
  | .startRead _ tick => ¬ CompletedIn calls tick
  | _ => True

/-- A write does not start in the tick in which the last of the writes before it
has completed. -/
def Spaced (past : List (Call UInt8)) : Call UInt8 → Prop
  | .startWrite _ tick _ => InFlight past ∨ ¬ CompletedIn past tick
  | _ => True

section Decidable

variable (past calls : List (Call UInt8)) (tick : Tick)

instance : Decidable (StartedIn calls tick) :=
  inferInstanceAs (Decidable (∃ call ∈ calls, startsWrite tick call = true))

instance : Decidable (CompletedIn calls tick) :=
  inferInstanceAs (Decidable (∃ call ∈ calls, completesWrite tick call = true))

instance : Decidable (InFlight past) :=
  inferInstanceAs (Decidable (∃ call ∈ past, ∃ write ∈ call.written, OpenWrite past write.1))

instance : (call : Call UInt8) → Decidable (EndsApart calls call)
  | .completeRead _ tick _ => inferInstanceAs (Decidable (¬ StartedIn calls tick))
  | .startRead .. | .startWrite .. | .completeWrite .. | .abortWrite .. => .isTrue trivial

instance : (call : Call UInt8) → Decidable (StartsApart calls call)
  | .startRead _ tick => inferInstanceAs (Decidable (¬ CompletedIn calls tick))
  | .completeRead .. | .startWrite .. | .completeWrite .. | .abortWrite .. => .isTrue trivial

instance : (call : Call UInt8) → Decidable (Spaced past call)
  | .startWrite _ tick _ => inferInstanceAs (Decidable (InFlight past ∨ ¬ CompletedIn past tick))
  | .startRead .. | .completeRead .. | .completeWrite .. | .abortWrite .. => .isTrue trivial

end Decidable

/-! ## The check of a read -/

variable {begun : Tick}

section Check

variable {calls past : List (Call UInt8)} {tracker : ByteTracker} {start finish : Tick}
  {data : UInt8} {lastObs : Transaction}

/-- A read that started at `start` returns at `finish`, after the calls of
`past`. -/
structure AtReturn (calls past : List (Call UInt8)) (tracker : ByteTracker) (start finish : Tick) :
    Prop where
  made : ∀ call ∈ past, call ∈ calls
  ahead : ∀ call ∈ calls, call ∈ past ∨ finish ≤ call.tick
  bounded : ∀ call ∈ past, call.tick ≤ finish
  real : ∀ call ∈ past, call.tick < tickFuture
  startReal : start < tickFuture
  noWriteStarts : ∀ serial value, Call.startWrite serial finish value ∉ calls
  noWriteEnds : ∀ serial, Call.completeWrite serial start ∉ calls
  observations : Observations past tracker.readObservations start
  clusters : Clusters past tracker.writeClusters start

namespace AtReturn

variable (here : AtReturn calls past tracker start finish)
include here

variable {write : Transaction}
  (scanned : write ∈ scannedWrites lastObs start tracker.writeClusters.reverse)

include scanned in
/-- The scan looks at writes of the clusters. -/
theorem formed_of_scanned : ∃ cluster : WriteCluster, cluster.Formed past ∧
    write ∈ cluster.writes := by
  obtain ⟨cluster, listed, mem⟩ := scannedWrites_subset scanned
  exact ⟨cluster, here.clusters.formed cluster (List.mem_reverse.mp listed), mem⟩

include scanned in
theorem started_of_scanned : Call.startWrite write.serial write.start write.data ∈ past := by
  obtain ⟨_, formed, mem⟩ := here.formed_of_scanned scanned
  exact formed.started write mem

include scanned in
/-- A write that settles the matter completed strictly before the read. -/
theorem settled (settles : Settles lastObs start write) :
    Call.completeWrite write.serial write.complete ∈ past ∧ write.complete < start := by
  obtain ⟨_, formed, mem⟩ := here.formed_of_scanned scanned
  have done := formed.completed mem (Nat.ne_of_lt (Nat.lt_of_le_of_lt settles.2 here.startReal))
  refine ⟨done, Nat.lt_of_le_of_ne settles.2 fun same => ?_⟩
  exact here.noWriteEnds write.serial (same ▸ here.made _ done)

include scanned in
/-- A write that settles the matter overwrites what completed before it
started. -/
theorem overwritten (settles : Settles lastObs start write)
    {ended : Tick} (after : ended < write.start) : Overwritten calls ended start := by
  obtain ⟨done, early⟩ := here.settled scanned settles
  exact ⟨write.serial, write.start, write.data, write.complete,
    here.made _ (here.started_of_scanned scanned), here.made _ done, after, early⟩

theorem observed (observes : Observes past lastObs) {after : Tick} (later : after < lastObs.start)
    (early : lastObs.complete < start) : Observed calls after start lastObs.data := by
  rcases observes with ⟨isInitial, -⟩ | ⟨started, completed, -⟩
  · rw [isInitial] at later
    exact absurd later (Nat.not_lt_zero _)
  · exact ⟨lastObs.serial, lastObs.start, lastObs.complete, here.made _ started,
      here.made _ completed, later, early⟩

/-- The write that the read sees is found by the scan, or the last observation
is still valid and has its value. -/
theorem scan_of_write (observes : Observes past lastObs)
    (early : lastObs.complete = tickInitial ∨ lastObs.complete < start) {serial : Serial}
    (started : Call.startWrite serial begun data ∈ calls)
    (kept : ∀ tick, Call.abortWrite serial tick ∉ calls) (inTime : begun ≤ finish)
    (last : ∀ ended, Call.completeWrite serial ended ∈ calls → ¬ Overwritten calls ended start)
    (agrees : ∀ ended, Call.completeWrite serial ended ∈ calls →
      ∀ seen, Observed calls ended start seen → seen = data) :
    Matches lastObs data (scannedWrites lastObs start tracker.writeClusters.reverse) ∨
    (lastObs.complete ≠ tickInitial ∧ lastObs.data = data ∧
      ∀ write ∈ scannedWrites lastObs start tracker.writeClusters.reverse,
        Settles lastObs start write → ¬ lastObs.complete < write.start) := by
  have old : Call.startWrite serial begun data ∈ past := by
    rcases here.ahead _ started with old | late
    · exact old
    · have same : begun = finish := Nat.le_antisymm inTime late
      exact absurd (same ▸ started) (here.noWriteStarts serial data)
  have unaborted : ∀ call ∈ past, call.aborted ≠ some serial := by
    intro call mem same
    cases call with
    | abortWrite _ tick =>
      cases same
      exact kept tick (here.made _ mem)
    | startRead => cases same
    | completeRead => cases same
    | startWrite => cases same
    | completeWrite => cases same
  rcases here.clusters.covered serial begun data old unaborted with
    ⟨cluster, listed, write, mem, rfl, value⟩ | ⟨ended, completed, hidden⟩
  · have formed := here.clusters.formed cluster listed
    -- Nothing overwrites the write once it is complete.
    have done {tick : Tick} (before : write.complete < tick) (realTick : tick < tickFuture) :
        Call.completeWrite write.serial write.complete ∈ calls :=
      here.made _ (formed.completed mem (Nat.ne_of_lt (Nat.lt_trans before realTick)))
    have separated := List.pairwise_reverse.mpr (here.clusters.separated.imp
      fun ordered next present write mem => ordered write mem next present)
    rcases scanned_or_settled lastObs start separated
      (List.mem_reverse.mpr listed) mem with scanned | ⟨next, scanned, settles, after⟩
    · by_cases seen : Seen lastObs write
      · exact .inl ⟨write, scanned, seen, value⟩
      · -- The last observation is younger than the write.
        have younger : write.complete < lastObs.start := Nat.not_le.mp seen
        have later : write.complete < lastObs.complete :=
          Nat.lt_of_lt_of_le younger observes.start_le
        have nonzero : lastObs.complete ≠ tickInitial := by
          intro zero
          rw [zero] at later
          exact Nat.not_lt_zero _ later
        have before := early.resolve_left nonzero
        have ended := done (Nat.lt_trans later before) here.startReal
        refine .inr ⟨nonzero, agrees _ ended _ (here.observed observes younger before), ?_⟩
        intro _ present settles overtakes
        exact last _ ended (here.overwritten present settles (Nat.lt_trans later overtakes))
    · have realStart := here.real _ (here.started_of_scanned scanned)
      exact absurd (here.overwritten scanned settles after) (last _ (done after realStart))
  · have still : Overwritten calls ended start := hidden.mono here.made (Nat.le_refl _)
    exact absurd still (last ended (here.made _ completed))

theorem unsettled_of_initial (lastObs : Transaction)
    (none_complete : ∀ serial begun written ended, Call.startWrite serial begun written ∈ calls →
      Call.completeWrite serial ended ∈ calls → start ≤ ended) :
    ∀ write ∈ scannedWrites lastObs start tracker.writeClusters.reverse,
      ¬ Settles lastObs start write := by
  intro _ scanned settles
  obtain ⟨done, early⟩ := here.settled scanned settles
  have late := none_complete _ _ _ _ (here.made _ (here.started_of_scanned scanned))
    (here.made _ done)
  exact Nat.not_lt.mpr late early

theorem begin_start_lt {cluster : WriteCluster} (listed : cluster ∈ tracker.writeClusters) :
    cluster.start < finish := by
  obtain ⟨serial, value, mem⟩ := here.clusters.begun cluster listed
  refine Nat.lt_of_le_of_ne (here.bounded _ mem) fun same => ?_
  exact here.noWriteStarts serial value (same ▸ here.made _ mem)

/-- The last cluster is complete only after the read has started, if nothing in it
settles the matter. -/
theorem last_complete_gt {last : WriteCluster} (ends : tracker.writeClusters.getLast? = some last)
    (silent : lastObs.start = tickInitial)
    (unsettled : ∀ write ∈ scannedWrites lastObs start tracker.writeClusters.reverse,
      ¬ Settles lastObs start write) : start < last.complete := by
  obtain ⟨_, split⟩ := List.getLast?_eq_some_iff.mp ends
  have formed := here.clusters.formed last (by simp [split])
  by_cases future : last.complete = tickFuture
  · rw [future]
    exact here.startReal
  · obtain ⟨isMax, -, nonempty⟩ := formed.closed future
    obtain ⟨write, mem⟩ := List.exists_mem_of_ne_nil _ nonempty
    have scanned : write ∈ scannedWrites lastObs start tracker.writeClusters.reverse := by
      rw [split, List.reverse_append, List.reverse_singleton, List.singleton_append, scannedWrites]
      split
      · exact mem
      · exact List.mem_append_left _ mem
    have late : start < write.complete := by
      by_contra early
      exact unsettled write scanned ⟨silent ▸ Nat.zero_le _, Nat.not_lt.mp early⟩
    have below := formed.bound write mem (formed.complete_of_closed future mem)
    exact Nat.lt_of_lt_of_le late (isMax ▸ below)

theorem inExpectedData (source : Source calls start finish data) :
    tracker.inExpectedData start finish data = some true := by
  obtain ⟨lastObs, _, isLast, mem, early⟩ := here.observations.last
  have observes := here.observations.each lastObs (mem lastObs List.mem_cons_self)
  simp only [ByteTracker.inExpectedData, isLast]
  rcases scanClusters_cases lastObs start data tracker.writeClusters.reverse
    { lastObsValid := lastObs.complete != tickInitial } rfl rfl with
    ⟨-, found⟩ | ⟨unfound, missing, passed⟩
  · rw [if_pos found]
  · rw [if_neg (by simp [unfound])]
    have trusted (spoken : lastObs.complete ≠ tickInitial) (same : lastObs.data = data) :
        (if lastObs.complete ≤ start then some (decide (lastObs.data = data)) else none) =
          some true := by
      rw [if_pos (Nat.le_of_lt (early.resolve_left spoken)), decide_eq_true same]
    cases source with
    | write _ _ started kept inTime last agrees =>
      rcases here.scan_of_write observes early started kept inTime last agrees with
        found | ⟨spoken, same, valid⟩
      · exact absurd found missing
      · rw [if_pos (passed.valid.mpr ⟨bne_iff_ne.mpr spoken, valid⟩)]
        exact trusted spoken same
    | initial none_complete agrees =>
      have unsettled := here.unsettled_of_initial lastObs none_complete
      have overlap := passed.overlap.mpr ⟨rfl, unsettled⟩
      by_cases silent : lastObs.complete = tickInitial
      · -- Nothing is known of the byte, so the writes under way decide.
        have invalid : ¬ (scanClusters lastObs start data tracker.writeClusters.reverse
            { lastObsValid := lastObs.complete != tickInitial }).lastObsValid = true := by
          intro valid
          exact bne_iff_ne.mp (passed.valid.mp valid).1 silent
        rw [if_neg invalid]
        cases listed : tracker.writeClusters with
        | nil => simp [scanClusters, silent]
        | cons first =>
          obtain ⟨last, ends⟩ : ∃ last, tracker.writeClusters.getLast? = some last :=
            Option.isSome_iff_exists.mp (by simp [listed])
          have starts : first.start < finish := here.begin_start_lt (by simp [listed])
          have noStart : lastObs.start = tickInitial :=
            Nat.le_zero.mp (Nat.le_trans observes.start_le (Nat.le_of_eq silent))
          have completes := here.last_complete_gt ends noStart unsettled
          rw [listed] at ends overlap
          simp only [ends, overlap]
          exact if_pos ⟨starts, completes⟩
      · rw [if_pos (passed.valid.mpr ⟨bne_iff_ne.mpr silent, fun write scanned settles =>
          absurd settles (unsettled write scanned)⟩)]
        refine trusted silent ?_
        rcases observes with ⟨-, isInitial⟩ | ⟨started, completed, -⟩
        · exact absurd isInitial silent
        · exact agrees _ _ _ _ (here.made _ started) (here.made _ completed)
            (early.resolve_left silent)

end AtReturn

end Check

/-! ## The invariant of the tracker -/

structure Tracks (past : List (Call UInt8)) (now : Tick) (tracker : ByteTracker) : Prop where
  known : Past past now
  reads : Reads past tracker.outstandingReads
  observations : Observations past tracker.readObservations (tracker.horizon now)
  clusters : Clusters past tracker.writeClusters (tracker.horizon now)

section Steps

variable {calls past : List (Call UInt8)} {now : Tick} {tracker : ByteTracker}
  {tick : Tick} {serial : Serial} {order : Linearization UInt8}

theorem tracks_empty : Tracks [] 0 {} where
  known := ⟨by simp, by simp, by simp, by simp⟩
  reads := ⟨by simp, by simp [OpenRead], List.Pairwise.nil⟩
  observations := by
    refine ⟨fun observation mem => ?_, _, _, rfl, .inl rfl⟩
    cases List.mem_singleton.mp mem
    exact .inl ⟨rfl, rfl⟩
  clusters := ⟨by simp, by simp, List.Pairwise.nil, by simp, by simp⟩

variable {call : Call UInt8} {data : UInt8}

section Holding

variable (tracks : Tracks past now tracker)
include tracks

/-- The horizon is not after the start of any outstanding read. -/
theorem Tracks.horizon_le_start (read : Transaction)
    (mem : read ∈ tracker.outstandingReads) : tracker.horizon now ≤ read.start := by
  have sorted := tracks.reads.sorted
  unfold ByteTracker.horizon
  cases listed : tracker.outstandingReads with
  | nil =>
    rw [listed] at mem
    cases mem
  | cons =>
    rw [listed] at mem sorted
    rcases List.mem_cons.mp mem with rfl | behind
    · exact Nat.le_refl _
    · exact (List.pairwise_cons.mp sorted).1 read behind

theorem Tracks.horizon_le_now : tracker.horizon now ≤ now := by
  unfold ByteTracker.horizon
  cases listed : tracker.outstandingReads with
  | nil => exact Nat.le_refl _
  | cons first =>
    exact tracks.known.bounded _ (tracks.reads.started first (by simp [listed]))

/-- The horizon moves only forward: a read starts now or was outstanding. -/
theorem Tracks.horizon_le {next : ByteTracker} (later : now ≤ tick)
    (origin : ∀ read ∈ next.outstandingReads, read ∈ tracker.outstandingReads ∨ now ≤ read.start) :
    tracker.horizon now ≤ next.horizon tick := by
  cases listed : next.outstandingReads with
  | nil =>
    have same : next.horizon tick = tick := by simp [ByteTracker.horizon, listed]
    rw [same]
    exact Nat.le_trans tracks.horizon_le_now later
  | cons first =>
    have same : next.horizon tick = first.start := by simp [ByteTracker.horizon, listed]
    rw [same]
    rcases origin first (by simp [listed]) with old | new
    · exact tracks.horizon_le_start first old
    · exact Nat.le_trans tracks.horizon_le_now new

/-- Pruning keeps what reads that are still to be checked need. -/
theorem Tracks.prune (real : now < tickFuture) :
    Tracks past now (tracker.pruneTransactions now) where
  known := tracks.known
  reads := tracks.reads
  observations := tracks.observations.prune
  clusters := tracks.clusters.prune tracks.known.real
    (Nat.le_trans tracks.horizon_le_now (Nat.le_of_lt real))

theorem Tracks.with_clusters (legal : Legal past call) (real : call.tick < tickFuture)
    (later : now ≤ call.tick) (other : call.readStarted = none) {next : List WriteCluster}
    (clusters : Clusters (past ++ [call]) next (tracker.horizon now)) :
    Tracks (past ++ [call]) call.tick { tracker with writeClusters := next } := by
  have forward : tracker.horizon now ≤
      ByteTracker.horizon { tracker with writeClusters := next } call.tick :=
    tracks.horizon_le later fun read mem => .inl mem
  exact ⟨tracks.known.append legal real, tracks.reads.append other,
    (tracks.observations.append call).mono forward, clusters.mono forward⟩

theorem Tracks.startRead (legal : Legal past (.startRead serial tick))
    (real : tick < tickFuture) (later : now ≤ tick) :
    Tracks (past ++ [.startRead serial tick]) tick (tracker.startRead serial tick) := by
  have forward : tracker.horizon now ≤ (tracker.startRead serial tick).horizon tick := by
    exact tracks.horizon_le later (List.forall_mem_append.mpr
      ⟨fun read => .inl, List.forall_mem_singleton.mpr (.inr later)⟩)
  have quiet : ∀ cluster ∈ tracker.writeClusters, ∀ write ∈ cluster.writes,
      (Call.startRead serial tick : Call UInt8).completed ≠ some write.serial ∧
        (Call.startRead serial tick : Call UInt8).aborted ≠ some write.serial := by
    simp [Call.completed, Call.aborted]
  exact ⟨tracks.known.append legal real, tracks.reads.start legal.1,
    (tracks.observations.append _).mono forward, (tracks.clusters.append quiet rfl).mono forward⟩

theorem Tracks.find_read (open_ : OpenRead past serial) :
    ∃ start complete value, tracker.outstandingReads.find?
        (fun read => decide (read.serial = serial)) = some ⟨serial, start, complete, value⟩ ∧
      ⟨serial, start, complete, value⟩ ∈ tracker.outstandingReads := by
  obtain ⟨read, mem, same⟩ := tracks.reads.present serial open_
  have some_found : (tracker.outstandingReads.find? fun read =>
      decide (read.serial = serial)).isSome = true :=
    List.find?_isSome.mpr ⟨read, mem, decide_eq_true same⟩
  obtain ⟨found, isFound⟩ := Option.isSome_iff_exists.mp some_found
  have isSerial : found.serial = serial := by
    simpa using List.find?_some isFound
  subst isSerial
  exact ⟨found.start, found.complete, found.data, isFound, List.mem_of_find?_eq_some isFound⟩

end Holding

theorem Past.read_ne_write (known : Past past now) {read write : Serial} {start : Tick}
    (reads : Call.startRead read start ∈ past) (writes : Call.startWrite write begun data ∈ past) :
    read ≠ write := by
  rintro rfl
  have same := known.unique _ reads _ writes read rfl rfl
  cases same

theorem Tracks.completeRead (tracks : Tracks past now tracker)
    (legal : Legal past (.completeRead serial tick data)) (real : tick < tickFuture)
    (later : now ≤ tick) (made : ∀ call ∈ past, call ∈ calls)
    (ahead : ∀ call ∈ calls, call ∈ past ∨ tick ≤ call.tick)
    (endsApart : ∀ call ∈ calls, EndsApart calls call)
    (startsApart : ∀ call ∈ calls, StartsApart calls call)
    (ret : Call.completeRead serial tick data ∈ calls) (explains : order.Explains calls) :
    ∃ next, tracker.completeRead serial tick data = some (next, true) ∧
      Tracks (past ++ [.completeRead serial tick data]) tick next := by
  obtain ⟨start, _, _, found, mem⟩ := tracks.find_read legal.2
  have started : Call.startRead serial start ∈ past := tracks.reads.started _ mem
  have limited := tracks.horizon_le_start _ mem
  let left : ByteTracker := { tracker with
    outstandingReads := tracker.outstandingReads.filter fun other =>
      decide (other.serial ≠ serial) }
  -- at the return every call that overlaps the read is recorded or still to come
  have here : AtReturn calls past left start tick := {
    made := made
    ahead := ahead
    bounded := legal.1
    real := tracks.known.real
    startReal := tracks.known.real _ started
    noWriteStarts := fun write written begun =>
      endsApart _ ret ⟨_, begun, decide_eq_true rfl⟩
    noWriteEnds := fun write ended =>
      startsApart _ (made _ started) ⟨_, ended, decide_eq_true rfl⟩
    observations := tracks.observations.mono limited
    clusters := tracks.clusters.mono limited }
  have passes := here.inExpectedData (explains.source serial start tick data (made _ started) ret)
  -- the read is outstanding no more, so the horizon can only move forward
  have forward : tracker.horizon now ≤ left.horizon tick :=
    tracks.horizon_le later fun read remains => .inl (List.mem_filter.mp remains).1
  have quiet : ∀ cluster ∈ tracker.writeClusters, ∀ write ∈ cluster.writes,
      (Call.completeRead serial tick data).completed ≠ some write.serial ∧
        (Call.completeRead serial tick data).aborted ≠ some write.serial := by
    intro cluster listed write present
    refine ⟨fun same => ?_, by simp [Call.aborted]⟩
    have begun := (tracks.clusters.formed cluster listed).started write present
    exact tracks.known.read_ne_write started begun (Option.some.inj same)
  -- what is recorded of the read is what the calls say it did
  have now_made : Call.completeRead serial tick data ∈ past ++ [.completeRead serial tick data] :=
    List.mem_append_right _ List.mem_cons_self
  have observes : Observes (past ++ [.completeRead serial tick data]) ⟨serial, start, tick, data⟩ :=
    .inr ⟨List.mem_append_left _ started, now_made, legal.1 _ started⟩
  have noted : Tracks (past ++ [.completeRead serial tick data]) tick
      { left with readObservations := left.readObservations ++ [⟨serial, start, tick, data⟩] } :=
    ⟨tracks.known.append legal real,
      (tracks.reads.append rfl).remove ⟨_, now_made, rfl⟩,
      ((tracks.observations.append _).mono forward).add observes,
      (tracks.clusters.append quiet rfl).mono forward⟩
  refine ⟨_, ?_, noted.prune real⟩
  simp only [ByteTracker.completeRead, found]
  rw [passes]

theorem Tracks.accepts (tracks : Tracks past now tracker) (legal : Legal past call)
    (spaced : Spaced past call) (real : call.tick < tickFuture) (later : now ≤ call.tick)
    (made : ∀ before ∈ past, before ∈ calls) (listed : call ∈ calls)
    (ahead : ∀ other ∈ calls, other ∈ past ∨ call.tick ≤ other.tick)
    (endsApart : ∀ other ∈ calls, EndsApart calls other)
    (startsApart : ∀ other ∈ calls, StartsApart calls other) (explains : order.Explains calls) :
    ∃ next, tracker.accepts call = some next ∧ Tracks (past ++ [call]) call.tick next := by
  cases call with
  | startRead serial tick =>
    exact ⟨tracker.startRead serial tick, rfl, tracks.startRead legal real later⟩
  | completeRead =>
    obtain ⟨next, taken, kept⟩ :=
      tracks.completeRead legal real later made ahead endsApart startsApart listed explains
    exact ⟨next, by simp [ByteTracker.accepts, ByteTracker.call, taken], kept⟩
  -- a write changes the clusters only, and only its end prunes them
  | startWrite =>
    obtain ⟨_, taken, clusters⟩ := tracks.clusters.startWrite tracks.known legal spaced
    exact ⟨_, by simp [ByteTracker.accepts, ByteTracker.call, taken],
      tracks.with_clusters legal real later rfl clusters⟩
  | completeWrite _ tick =>
    obtain ⟨next, taken, clusters⟩ := tracks.clusters.completeWrite legal real
    exact ⟨ByteTracker.pruneTransactions { tracker with writeClusters := next } tick,
      by simp [ByteTracker.accepts, ByteTracker.call, taken],
      (tracks.with_clusters legal real later rfl clusters).prune real⟩
  | abortWrite serial =>
    exact ⟨tracker.abortWrite serial, rfl,
      tracks.with_clusters legal real later rfl (tracks.clusters.abortWrite legal)⟩

/-- Every history that goes on from the calls made so far is accepted. -/
theorem Tracks.run {rest : List (Call UInt8)} (tracks : Tracks past now tracker)
    (split : calls = past ++ rest) (legal : Throughout Legal past rest)
    (spaced : Throughout Spaced past rest) (real : ∀ call ∈ rest, call.tick < tickFuture)
    (later : ∀ call ∈ rest, now ≤ call.tick) (endsApart : ∀ call ∈ calls, EndsApart calls call)
    (startsApart : ∀ call ∈ calls, StartsApart calls call) (explains : order.Explains calls) :
    (Runs.run ByteTracker.accepts tracker rest).isSome = true := by
  induction rest generalizing past now tracker with
  | nil => rfl
  | cons call rest ih =>
    -- by induction on the calls to come; those made are what the tracker knows of
    have split' : calls = past ++ [call] ++ rest := by simp [split]
    have ordered := legal.2.tick_le call (List.mem_append_right _ List.mem_cons_self)
    have ahead : ∀ other ∈ calls, other ∈ past ∨ call.tick ≤ other.tick := by
      rw [split, List.forall_mem_append, List.forall_mem_cons]
      exact ⟨fun other => .inl, .inr (Nat.le_refl _), fun other behind =>
        .inr (ordered other behind)⟩
    obtain ⟨_, taken, kept⟩ := tracks.accepts legal.1 spaced.1 (real call List.mem_cons_self)
      (later call List.mem_cons_self) (fun before mem => by simp [split, mem])
      (by simp [split]) ahead endsApart startsApart explains
    rw [Runs.run, taken, Option.bind_some]
    exact ih kept split' legal.2 spaced.2
      (fun other mem => real other (List.mem_cons_of_mem _ mem)) ordered

end Steps

/-! ## No false alarm -/

/-- The checker accepts every linearizable history in which operations do not
meet in one of the three ways. -/
theorem linearizable_accepted (calls : List (Call UInt8)) (legal : Throughout Legal [] calls)
    (real : ∀ call ∈ calls, call.tick < tickFuture) (linearizable : Linearizable calls)
    (endsApart : ∀ call ∈ calls, EndsApart calls call)
    (startsApart : ∀ call ∈ calls, StartsApart calls call) (spaced : Throughout Spaced [] calls) :
    (Runs.run ByteTracker.accepts {} calls).isSome = true := by
  obtain ⟨_, explains⟩ := linearizable
  exact tracks_empty.run rfl legal spaced real (fun _ _ => Nat.zero_le _) endsApart startsApart
    explains

/-- Two writes overlap, one of them is aborted, and reads see the old value, then
the new one. -/
def overlappingWrites : List (Call UInt8) :=
  [.startRead 0 1, .completeRead 0 2 7, .startWrite 1 3 9, .startWrite 2 3 8, .startRead 3 4,
    .completeRead 3 5 7, .startRead 4 6, .completeRead 4 7 9, .abortWrite 2 8, .completeWrite 1 8,
    .startRead 5 9, .completeRead 5 10 9]

theorem linearizable_accepted_overlappingWrites :
    (Runs.run ByteTracker.accepts {} overlappingWrites).isSome = true := by
  refine linearizable_accepted overlappingWrites (by decide) (by decide) ?_ (by decide) (by decide)
    (by decide)
  -- The points in the order in which the operations take effect.
  exact ⟨⟨fun serial => decide (serial ≠ 2), fun serial => [0, 2, 0, 1, 3, 4].getD serial 9, 7⟩,
    by decide⟩

/-- A write starts in the tick in which a read returns the old value. -/
def readMeetsWriteStart : List (Call UInt8) :=
  [.startRead 0 1, .startWrite 1 5 9, .completeRead 0 5 7]

/-- A write completes in the tick in which a read starts that returns the value
of an earlier read. -/
def readMeetsWriteEnd : List (Call UInt8) :=
  [.startRead 0 1, .completeRead 0 2 7, .startWrite 1 3 9, .startRead 2 5, .completeWrite 1 5,
    .completeRead 2 6 7]

/-- A write starts in the tick in which another completes, and takes effect
first. -/
def writeMeetsWriteEnd : List (Call UInt8) :=
  [.startWrite 0 1 7, .completeWrite 0 5, .startWrite 1 5 9, .completeWrite 1 8, .startRead 2 9,
    .completeRead 2 10 7]

/-- Three linearizable histories that the checker does not accept. Each has only
one of the coincidences. -/
theorem false_alarms : (Throughout Legal [] readMeetsWriteStart ∧ Linearizable readMeetsWriteStart ∧
      (∀ call ∈ readMeetsWriteStart, StartsApart readMeetsWriteStart call) ∧
      Throughout Spaced [] readMeetsWriteStart ∧
      Runs.run ByteTracker.accepts {} readMeetsWriteStart = none) ∧
    (Throughout Legal [] readMeetsWriteEnd ∧ Linearizable readMeetsWriteEnd ∧
      (∀ call ∈ readMeetsWriteEnd, EndsApart readMeetsWriteEnd call) ∧
      Throughout Spaced [] readMeetsWriteEnd ∧
      Runs.run ByteTracker.accepts {} readMeetsWriteEnd = none) ∧
    (Throughout Legal [] writeMeetsWriteEnd ∧ Linearizable writeMeetsWriteEnd ∧
      (∀ call ∈ writeMeetsWriteEnd, EndsApart writeMeetsWriteEnd call) ∧
      (∀ call ∈ writeMeetsWriteEnd, StartsApart writeMeetsWriteEnd call) ∧
      Runs.run ByteTracker.accepts {} writeMeetsWriteEnd = none) := by
  refine ⟨⟨by decide, ?_, by decide, by decide, by decide⟩,
    ⟨by decide, ?_, by decide, by decide, by decide⟩,
    ⟨by decide, ?_, by decide, by decide, by decide⟩⟩
  · exact ⟨⟨fun _ => true, fun serial => serial, 7⟩, by decide⟩
  · exact ⟨⟨fun _ => true, fun serial => [0, 2, 1].getD serial 9, 7⟩, by decide⟩
  · exact ⟨⟨fun _ => true, fun serial => [1, 0, 2].getD serial 9, 0⟩, by decide⟩

end RasCache.Mem.MemChecker
