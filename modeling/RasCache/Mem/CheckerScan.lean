import RasCache.Mem.MemChecker

/-!
# What the memory checker looks at

`inExpectedData` scans the write clusters from the last one back and stops behind
the first cluster with a write that settles the matter: one that completed before
the read started. Its answer depends only on the writes of the clusters it scans.
-/
namespace RasCache.Mem.MemChecker

open RegisterHistory

section Scan

variable (lastObs : Transaction) (start : Tick) (data : UInt8)

/-- The write is not ignored in favour of the last observation. -/
def Seen (write : Transaction) : Prop := lastObs.start ≤ write.complete

/-- The write completed before the read, so no earlier cluster is looked at. -/
def Settles (write : Transaction) : Prop :=
  lastObs.start ≤ write.complete ∧ write.complete ≤ start

instance (write : Transaction) : Decidable (Settles lastObs start write) :=
  inferInstanceAs (Decidable (_ ∧ _))

/-- The writes of the clusters that are scanned, the last cluster first. -/
def scannedWrites : List WriteCluster → List Transaction
  | [] => []
  | cluster :: earlier =>
    if ∃ write ∈ cluster.writes, Settles lastObs start write then cluster.writes
    else cluster.writes ++ scannedWrites earlier

/-- The scan has found the value among the writes. -/
def Matches (writes : List Transaction) : Prop :=
  ∃ write ∈ writes, Seen lastObs write ∧ write.data = data

/-- What a scan that found nothing knows about the writes it passed. -/
structure Passed (writes : List Transaction) (before after : Scan) : Prop where
  overlap : after.wcOverlap = true ↔
    before.wcOverlap = true ∧ ∀ write ∈ writes, ¬ Settles lastObs start write
  valid : after.lastObsValid = true ↔ before.lastObsValid = true ∧
    ∀ write ∈ writes, Settles lastObs start write → ¬ lastObs.complete < write.start

variable {lastObs : Transaction} {start : Tick} {data : UInt8} {before after : Scan}

theorem Passed.append {first second : List Transaction} {middle : Scan}
    (one : Passed lastObs start first before middle)
    (two : Passed lastObs start second middle after) :
    Passed lastObs start (first ++ second) before after where
  overlap := by
    rw [two.overlap, one.overlap, and_assoc]
    simp only [List.mem_append, or_imp, forall_and]
  valid := by
    rw [two.valid, one.valid, and_assoc]
    simp only [List.mem_append, or_imp, forall_and]

variable {write : Transaction}

theorem Passed.cons_unsettled {rest : List Transaction}
    (passed : Passed lastObs start rest before after) (open_ : ¬ Settles lastObs start write) :
    Passed lastObs start (write :: rest) before after where
  overlap := by simp [passed.overlap, open_]
  valid := by simp [passed.valid, open_]

variable (lastObs start data) in
/-- The inner loop finds the value, or passes the writes. -/
theorem scanWrites_cases (writes : List Transaction) (scan : Scan) (unfound : scan.found = false) :
    (Matches lastObs data writes ∧ (scanWrites lastObs start data writes scan).found = true) ∨
    (¬ Matches lastObs data writes ∧ (scanWrites lastObs start data writes scan).found = false ∧
      Passed lastObs start writes scan (scanWrites lastObs start data writes scan)) := by
  induction writes generalizing scan with
  | nil =>
    right
    exact ⟨by simp [Matches], unfound, by simp [scanWrites], by simp [scanWrites]⟩
  | cons write rest ih =>
    simp only [scanWrites]
    split
    next ignored =>
      -- The last observation is younger than this write.
      have unseen : ¬ Seen lastObs write := Nat.not_le.mpr ignored
      have open_ : ¬ Settles lastObs start write := fun settles => unseen settles.1
      have skip : Matches lastObs data (write :: rest) ↔ Matches lastObs data rest := by
        simp [Matches, unseen]
      rcases ih scan unfound with ⟨found, result⟩ | ⟨missing, result, passed⟩
      · exact .inl ⟨skip.mpr found, result⟩
      · exact .inr ⟨fun found => missing (skip.mp found), result, passed.cons_unsettled open_⟩
    next seen =>
      have seen : Seen lastObs write := Nat.not_lt.mp seen
      split
      next same => exact .inl ⟨⟨write, List.mem_cons_self, seen, same⟩, rfl⟩
      next different =>
        have skip : Matches lastObs data (write :: rest) ↔ Matches lastObs data rest := by
          simp [Matches, different]
        split
        next overlaps =>
          have open_ : ¬ Settles lastObs start write := fun settles =>
            Nat.not_le.mpr overlaps settles.2
          rcases ih
            { scan with lastExpectedData := scan.lastExpectedData ++ [write.data] } unfound with
            ⟨found, result⟩ | ⟨missing, result, passed⟩
          · exact .inl ⟨skip.mpr found, result⟩
          · refine .inr ⟨fun found => missing (skip.mp found), result, ?_⟩
            exact Passed.cons_unsettled ⟨passed.overlap, passed.valid⟩ open_
        next early =>
          have settles : Settles lastObs start write := ⟨seen, Nat.not_lt.mp early⟩
          rcases ih { scan with
            wcOverlap := false
            lastObsValid := scan.lastObsValid && !decide (lastObs.complete < write.start)
            lastExpectedData := scan.lastExpectedData ++ [write.data] } unfound with
            ⟨found, result⟩ | ⟨missing, result, passed⟩
          · exact .inl ⟨skip.mpr found, result⟩
          · refine .inr ⟨fun found => missing (skip.mp found), result, ?_, ?_⟩
            · rw [passed.overlap]
              simp [settles]
            · rw [passed.valid]
              simp [settles, and_assoc]

variable (lastObs start data) in
/-- The outer loop finds the value, or passes the writes of the clusters it
scans. -/
theorem scanClusters_cases (clusters : List WriteCluster) (scan : Scan)
    (unfound : scan.found = false) (overlap : scan.wcOverlap = true) :
    (Matches lastObs data (scannedWrites lastObs start clusters) ∧
      (scanClusters lastObs start data clusters scan).found = true) ∨
    ((scanClusters lastObs start data clusters scan).found = false ∧
      ¬ Matches lastObs data (scannedWrites lastObs start clusters) ∧
      Passed lastObs start (scannedWrites lastObs start clusters) scan
        (scanClusters lastObs start data clusters scan)) := by
  induction clusters generalizing scan with
  | nil =>
    right
    exact ⟨unfound, by simp [Matches, scannedWrites], by simp [scanClusters, scannedWrites],
      by simp [scanClusters, scannedWrites]⟩
  | cons cluster earlier ih =>
    simp only [scanClusters, overlap, if_true]
    rcases scanWrites_cases lastObs start data cluster.writes scan unfound with
      ⟨found, result⟩ | ⟨missing, result, passed⟩
    · obtain ⟨write, mem, known⟩ := found
      rw [if_pos result]
      refine .inl ⟨⟨write, ?_, known⟩, result⟩
      rw [scannedWrites]
      split
      · exact mem
      · exact List.mem_append_left _ mem
    · rw [if_neg (by simp [result])]
      by_cases settled : ∃ write ∈ cluster.writes, Settles lastObs start write
      · -- The loop does not look behind this cluster.
        have stops : (scanWrites lastObs start data cluster.writes scan).wcOverlap = false := by
          refine eq_false_of_ne_true fun goes => ?_
          obtain ⟨write, mem, settles⟩ := settled
          exact (passed.overlap.mp goes).2 write mem settles
        have ends : scanClusters lastObs start data earlier
            (scanWrites lastObs start data cluster.writes scan) =
            scanWrites lastObs start data cluster.writes scan := by
          cases earlier with
          | nil => rfl
          | cons => simp [scanClusters, stops]
        rw [ends]
        simp only [scannedWrites, if_pos settled]
        exact .inr ⟨result, missing, passed⟩
      · have goes : (scanWrites lastObs start data cluster.writes scan).wcOverlap = true := by
          refine passed.overlap.mpr
            ⟨overlap, fun write mem settles => settled ⟨write, mem, settles⟩⟩
        simp only [scannedWrites, if_neg settled]
        rcases ih _ result goes with ⟨found, final⟩ | ⟨none_found, absent, behind⟩
        · obtain ⟨write, mem, known⟩ := found
          exact .inl ⟨⟨write, List.mem_append_right _ mem, known⟩, final⟩
        · refine .inr ⟨none_found, ?_, passed.append behind⟩
          rintro ⟨write, mem, known⟩
          rcases List.mem_append.mp mem with here | there
          · exact missing ⟨write, here, known⟩
          · exact absent ⟨write, there, known⟩

variable {clusters : List WriteCluster}

variable (lastObs start) in
/-- A write of the clusters is scanned, or one that settles the matter started
after it had completed. -/
theorem scanned_or_settled
    (separated : clusters.Pairwise fun later earlier => ∀ next ∈ later.writes,
      ∀ write ∈ earlier.writes, write.complete < next.start)
    {cluster : WriteCluster} (listed : cluster ∈ clusters) (mem : write ∈ cluster.writes) :
    write ∈ scannedWrites lastObs start clusters ∨ ∃ next ∈ scannedWrites lastObs start clusters,
        Settles lastObs start next ∧ write.complete < next.start := by
  induction clusters with
  | nil => cases listed
  | cons _ _ ih =>
    rw [List.pairwise_cons] at separated
    simp only [scannedWrites]
    -- the scan stops at a cluster that settles what was there before
    split
    next settled =>
      rcases List.mem_cons.mp listed with rfl | behind
      · exact .inl mem
      · obtain ⟨next, present, settles⟩ := settled
        exact .inr ⟨next, present, settles, separated.1 cluster behind next present write mem⟩
    · rcases List.mem_cons.mp listed with rfl | behind
      · exact .inl (List.mem_append_left _ mem)
      · rcases ih separated.2 behind with scanned | ⟨next, present, known⟩
        · exact .inl (List.mem_append_right _ scanned)
        · exact .inr ⟨next, List.mem_append_right _ present, known⟩

theorem scannedWrites_subset (mem : write ∈ scannedWrites lastObs start clusters) :
    ∃ cluster ∈ clusters, write ∈ cluster.writes := by
  induction clusters with
  | nil => cases mem
  | cons last _ ih =>
    simp only [scannedWrites] at mem
    split at mem
    · exact ⟨last, List.mem_cons_self, mem⟩
    · rcases List.mem_append.mp mem with here | behind
      · exact ⟨last, List.mem_cons_self, here⟩
      · obtain ⟨cluster, listed, present⟩ := ih behind
        exact ⟨cluster, List.mem_cons_of_mem _ listed, present⟩

end Scan

end RasCache.Mem.MemChecker
