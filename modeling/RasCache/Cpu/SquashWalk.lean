import RasCache.Cpu.Rob

/-!
# The squash walk over several cycles

`ROB::squash` starts a walk from the tail of a thread's instruction list and
`ROB::doSquash` takes it on, at most `squashWidth` instructions a call, until an
instruction is met that is not younger than the squashing one. A further squash
starts the walk again from the tail. The commit stage calls `doSquash` for a
thread only while `isDoneSquashing` is false.

Between two calls the list differs from the list at the first squash by marks
only: every entry behind the iterator is marked, and no entry is marked that is
not younger than the lowest number requested so far (`MarkedFrom`).
-/
namespace RasCache.Cpu

/-- `setSquashed` and `setCanCommit`. -/
def DynInst.squashed (inst : DynInst) : DynInst :=
  { inst with isSquashed := true, readyToCommit := true }

namespace Rob

inductive SquashCall where
  | squash (squashNum : InstSeqNum) (exiting : Bool)
  | doSquash (exiting : Bool)
deriving Repr, DecidableEq

/-- A call for one thread. A thread that is done squashing is left alone. -/
def ThreadRob.squashCall (cfg : RobParams) (t : ThreadRob) : SquashCall → Option ThreadRob
  | .squash squashNum exiting => squash cfg t squashNum exiting
  | .doSquash exiting => if t.doneSquashing then some t else doSquash cfg t exiting

def squashCall (cfg : RobParams) (tid : ThreadID) (rob : Rob) (call : SquashCall) : Option Rob :=
  (ThreadRob.squashCall cfg (rob.thread tid) call).map (rob.setThread tid)

/-- The lowest number requested, by `s` or one of the calls. -/
def lowest (s : InstSeqNum) : List SquashCall → InstSeqNum
  | [] => s
  | .squash squashNum _ :: calls => lowest (min s squashNum) calls
  | .doSquash _ :: calls => lowest s calls

/-- Each further squash reaches at least as far back as those before it. -/
def Descending (s : InstSeqNum) : List SquashCall → Prop
  | [] => True
  | .squash squashNum _ :: calls => squashNum ≤ s ∧ Descending squashNum calls
  | .doSquash _ :: calls => Descending s calls

/-! ## The walk between two calls -/

/-- The list at the first squash and the list now, with the iterator at `i` and
a squash of everything younger than `s` under way. -/
structure MarkedFrom (s : InstSeqNum) (i : Nat) (insts now : List DynInst) : Prop where
  length : now.length = insts.length
  entries : ∀ j inst, insts[j]? = some inst →
    now[j]? = some inst.squashed ∧ s < inst.seqNum ∨ j ≤ i ∧ now[j]? = some inst

/-- The squash is complete. -/
def Finished (s : InstSeqNum) (insts now : List DynInst) : Prop :=
  now = insts.map fun inst => if s < inst.seqNum then inst.squashed else inst

variable {insts now : List DynInst} {s : InstSeqNum} {i remaining : Nat} {t : ThreadRob}

theorem finished_of_entries (s : InstSeqNum) (length : now.length = insts.length)
    (entries : ∀ (j : Nat) (inst : DynInst), insts[j]? = some inst →
      now[j]? = some (if s < inst.seqNum then inst.squashed else inst)) : Finished s insts now := by
  apply List.ext_getElem?
  intro j
  rw [List.getElem?_map]
  cases at_j : insts[j]? with
  | some inst => exact entries j inst at_j
  | none =>
    rw [List.getElem?_eq_none_iff] at at_j
    exact List.getElem?_eq_none_iff.mpr (by omega)

section

variable (marked : MarkedFrom s i insts now)
include marked

/-- A walk that stands at an entry that is not to be squashed is at its end. -/
theorem MarkedFrom.finished {last : DynInst}
    (sorted : insts.Pairwise fun older younger => older.seqNum < younger.seqNum)
    (there : insts[i]? = some last) (reached : last.seqNum ≤ s) : Finished s insts now := by
  apply finished_of_entries s marked.length
  intro j inst at_j
  rcases marked.entries j inst at_j with ⟨done, above⟩ | ⟨before, unchanged⟩
  · rw [if_pos above]
    exact done
  · have older : inst.seqNum ≤ last.seqNum := by
      obtain ⟨inside, rfl⟩ := List.getElem?_eq_some_iff.mp at_j
      obtain ⟨below, rfl⟩ := List.getElem?_eq_some_iff.mp there
      rcases Nat.lt_or_eq_of_le before with before | rfl
      · exact Nat.le_of_lt (List.pairwise_iff_getElem.mp sorted j i inside below before)
      · exact Nat.le_refl _
    rw [if_neg (Nat.not_lt.mpr (Nat.le_trans older reached))]
    exact unchanged

/-- The entry under the iterator, now and before. Its number never changes. -/
theorem MarkedFrom.current (inside : i < insts.length) :
    ∃ inst entry, insts[i]? = some inst ∧ now[i]? = some entry ∧ entry.seqNum = inst.seqNum ∧
      entry.squashed = inst.squashed := by
  refine ⟨insts[i], ?_⟩
  have there := List.getElem?_eq_getElem inside
  rcases marked.entries i _ there with ⟨done, -⟩ | ⟨-, unchanged⟩
  · exact ⟨_, there, done, rfl, rfl⟩
  · exact ⟨_, there, unchanged, rfl, rfl⟩

/-- One step of the loop: the entry under the iterator is marked. -/
theorem MarkedFrom.mark {inst entry : DynInst} (there : insts[i]? = some inst)
    (same : entry.squashed = inst.squashed) (above : s < inst.seqNum) :
    (now.set i entry.squashed).length = insts.length ∧ ∀ j other, insts[j]? = some other →
      (now.set i entry.squashed)[j]? = some other.squashed ∧ s < other.seqNum ∨
        j < i ∧ (now.set i entry.squashed)[j]? = some other := by
  have length := marked.length
  refine ⟨by simpa using length, fun j other at_j => ?_⟩
  by_cases here : j = i
  · subst here
    obtain rfl := Option.some.inj (there.symm.trans at_j)
    have inside : j < now.length := by
      have := (List.getElem?_eq_some_iff.mp there).1
      omega
    exact Or.inl ⟨by simp [inside, same], above⟩
  · rw [List.getElem?_set_ne (Ne.symm here)]
    rcases marked.entries j other at_j with done | ⟨before, unchanged⟩
    · exact Or.inl done
    · exact Or.inr ⟨by omega, unchanged⟩

end

/-- What the loop of one call leaves. With at least one instruction to squash it
moves on, or stands at an entry that is not to be squashed. -/
inductive LoopEnd (s : InstSeqNum) (i n : Nat) (insts : List DynInst) :
    List DynInst × InstIt → Prop where
  | past (now : List DynInst) (finished : Finished s insts now) : LoopEnd s i n insts (now, .past)
  | entry (now : List DynInst) (j : Nat) (before : j ≤ i) (marked : MarkedFrom s j insts now)
      (moved : 1 ≤ n → j < i ∨ ∃ inst, insts[j]? = some inst ∧ inst.seqNum ≤ s) :
      LoopEnd s i n insts (now, .entry j)

theorem squashLoop_end (n : Nat) (now : List DynInst) (i : Nat) (inside : i < insts.length)
    (marked : MarkedFrom s i insts now) : LoopEnd s i n insts (squashLoop s n now i) := by
  induction n generalizing now i with
  | zero => exact .entry now i (Nat.le_refl i) marked (by omega)
  | succ n ih =>
    obtain ⟨inst, entry, there, under, number, same⟩ := marked.current inside
    simp only [squashLoop, under]
    split
    -- an instruction above the number is marked and the walk goes on to the one before
    next above =>
      have step := marked.mark there same (Nat.lt_of_lt_of_eq above number)
      cases i with
      | zero =>
        refine .past _ (finished_of_entries s step.1 fun j other at_j => ?_)
        rcases step.2 j other at_j with ⟨done, younger⟩ | ⟨before, -⟩
        · rw [if_pos younger]
          exact done
        · omega
      | succ i =>
        have rest : MarkedFrom s i insts (now.set (i + 1) entry.squashed) :=
          ⟨step.1, fun j other at_j => (step.2 j other at_j).imp id fun unchanged =>
            ⟨by omega, unchanged.2⟩⟩
        have ended := ih (now.set (i + 1) entry.squashed) i (by omega) rest
        show LoopEnd s (i + 1) (n + 1) insts (squashLoop s n (now.set (i + 1) entry.squashed) i)
        generalize squashLoop s n (now.set (i + 1) entry.squashed) i = loopEnd at ended
        cases ended with
        | past now' finished => exact .past now' finished
        | entry now' j _ marked' =>
          exact .entry now' j (by omega) marked' fun _ => Or.inl (by omega)
    next reached =>
      exact .entry now i (Nat.le_refl i) marked fun _ =>
        Or.inr ⟨inst, there, number ▸ Nat.le_of_not_lt reached⟩

/-! ## The calls -/

/-- Where a thread stands with a squash of everything younger than `s` among the
instructions `insts`; `remaining` bounds the calls the walk still needs. -/
inductive Walking (insts : List DynInst) (s : InstSeqNum) : Nat → ThreadRob → Prop where
  | done (remaining : Nat) (t : ThreadRob) (stopped : t.doneSquashing = true)
      (finished : Finished s insts t.instList) : Walking insts s remaining t
  | walk (i remaining : Nat) (t : ThreadRob) (going : t.doneSquashing = false)
      (number : t.squashedSeqNum = s) (iterator : t.squashIt = .entry i)
      (inside : i < insts.length) (ahead : i < remaining)
      (marked : MarkedFrom s i insts t.instList) : Walking insts s remaining t

theorem Walking.mono {more : Nat} (walking : Walking insts s remaining t) (le : remaining ≤ more) :
    Walking insts s more t := by
  cases walking with
  | done _ _ stopped finished => exact .done more t stopped finished
  | walk i _ _ going number iterator inside _ marked =>
    exact .walk i more t going number iterator inside (by omega) marked

theorem doSquash_walking (cfg : RobParams) (insts : List DynInst) (s : InstSeqNum) (i : Nat)
    (t : ThreadRob) (exiting : Bool) (wide : 1 ≤ cfg.squashWidth)
    (capacity : insts.length ≤ cfg.numEntries)
    (sorted : insts.Pairwise fun older younger => older.seqNum < younger.seqNum)
    (going : t.doneSquashing = false) (number : t.squashedSeqNum = s)
    (iterator : t.squashIt = .entry i) (inside : i < insts.length)
    (marked : MarkedFrom s i insts t.instList) :
    ∃ t', doSquash cfg t exiting = some t' ∧ Walking insts s i t' := by
  obtain ⟨_, entry, there, under, same, -⟩ := marked.current inside
  have some_width : 1 ≤ if exiting then cfg.numEntries else cfg.squashWidth := by
    split <;> omega
  have ended := squashLoop_end (if exiting then cfg.numEntries else cfg.squashWidth)
    t.instList i inside marked
  simp only [doSquash, iterator, under, number, Option.bind_eq_bind, Option.bind_some]
  -- the walk may have arrived before it starts
  split
  next reached =>
    refine ⟨_, rfl, .done _ _ rfl (marked.finished sorted there ?_)⟩
    rw [← same]
    exact Nat.le_of_lt reached
  next =>
    generalize squashLoop s (if exiting then cfg.numEntries else cfg.squashWidth)
      t.instList i = loopEnd at ended
    cases ended with
    | past _ finished => exact ⟨_, rfl, .done _ _ rfl finished⟩
    | entry _ j _ marked' moved =>
      obtain ⟨_, _, stopped, under', same', -⟩ := marked'.current (by omega)
      simp only [under', Option.bind_some]
      split
      next reached =>
        refine ⟨_, rfl, .done _ _ rfl (marked'.finished sorted stopped ?_)⟩
        rw [← same']
        exact reached
      -- a round with a width moves the iterator, so the next one starts earlier
      next above =>
        have earlier : j < i := by
          rcases moved some_width with earlier | ⟨other, at_j, low⟩
          · exact earlier
          · obtain rfl := Option.some.inj (stopped.symm.trans at_j)
            exact absurd (same' ▸ low) above
        exact ⟨_, rfl, .walk j i _ going rfl rfl (by omega) earlier marked'⟩

variable {squashNum : InstSeqNum}

/-- A squash starts the walk at the tail. What is marked so far is younger than
the new number too. -/
theorem squash_walking {cfg : RobParams} (exiting : Bool) (wide : 1 ≤ cfg.squashWidth)
    (capacity : insts.length ≤ cfg.numEntries)
    (sorted : insts.Pairwise fun older younger => older.seqNum < younger.seqNum)
    (lower : squashNum ≤ s) (length : t.instList.length = insts.length)
    (empty : insts = [] → t.doneSquashing = true)
    (entries : ∀ (j : Nat) (inst : DynInst), insts[j]? = some inst →
      t.instList[j]? = some inst.squashed ∧ s < inst.seqNum ∨ t.instList[j]? = some inst) :
    ∃ t', squash cfg t squashNum exiting = some t' ∧ Walking insts squashNum insts.length t' := by
  simp only [squash]
  cases at_end : insts.length with
  | zero =>
    obtain rfl := List.length_eq_zero_iff.mp at_end
    have nothing : t.instList = [] := List.length_eq_zero_iff.mp length
    refine ⟨t, by simp [nothing], .done _ _ (empty rfl) ?_⟩
    rw [nothing]
    rfl
  | succ last =>
    have nonempty : t.instList.isEmpty = false := by
      rw [List.isEmpty_eq_false_iff_exists_mem]
      exact List.exists_mem_of_length_pos (by omega)
    -- what an earlier squash marked is above the new number as well
    have marked : MarkedFrom squashNum last insts t.instList := by
      refine ⟨length, fun j inst at_j => ?_⟩
      rcases entries j inst at_j with ⟨done, above⟩ | unchanged
      · exact Or.inl ⟨done, Nat.lt_of_le_of_lt lower above⟩
      · have := (List.getElem?_eq_some_iff.mp at_j).1
        exact Or.inr ⟨by omega, unchanged⟩
    rw [if_neg (by simp [nonempty])]
    obtain ⟨t', called, walking⟩ := doSquash_walking cfg insts squashNum last
        { t with
          doneSquashing := false
          squashedSeqNum := squashNum
          squashIt := .entry (t.instList.length - 1) } exiting wide capacity sorted rfl rfl
        (by simp [length, at_end]) (by omega) marked
    exact ⟨t', called, walking.mono (by omega)⟩

theorem Walking.bounded (walking : Walking insts s remaining t) :
    Walking insts s insts.length t := by
  cases walking with
  | done _ _ stopped finished => exact .done _ t stopped finished
  | walk i _ _ going number iterator inside _ marked =>
    exact .walk i _ t going number iterator inside inside marked

/-- A walk under way has marked only what it has to mark. -/
theorem Walking.entries (walking : Walking insts s remaining t) : t.instList.length = insts.length ∧
    ∀ (j : Nat) (inst : DynInst), insts[j]? = some inst →
      t.instList[j]? = some inst.squashed ∧ s < inst.seqNum ∨ t.instList[j]? = some inst := by
  cases walking with
  | done _ _ _ finished =>
    rw [finished]
    refine ⟨List.length_map _, fun j inst at_j => ?_⟩
    rw [List.getElem?_map, at_j, Option.map_some]
    by_cases above : s < inst.seqNum
    · exact Or.inl ⟨by rw [if_pos above], above⟩
    · exact Or.inr (by rw [if_neg above])
  | walk _ _ _ _ _ _ _ _ marked =>
    exact ⟨marked.length, fun j inst at_j => (marked.entries j inst at_j).imp id And.right⟩

section Schedule

variable (cfg : RobParams) (tid : ThreadID) (insts : List DynInst)
  (wide : 1 ≤ cfg.squashWidth) (capacity : insts.length ≤ cfg.numEntries)
  (sorted : insts.Pairwise fun older younger => older.seqNum < younger.seqNum) {rob : Rob}

include wide capacity sorted in
theorem squashCall_doSquash (exiting : Bool)
    (walking : Walking insts s remaining (rob.thread tid)) :
    ∃ t, squashCall cfg tid rob (.doSquash exiting) = some (rob.setThread tid t) ∧
      Walking insts s (remaining - 1) t := by
  simp only [squashCall, ThreadRob.squashCall]
  cases walking with
  | done _ _ stopped finished =>
    exact ⟨rob.thread tid, by simp [stopped], .done _ _ stopped finished⟩
  | walk i _ _ going number iterator inside _ marked =>
    obtain ⟨t, called, walking⟩ := doSquash_walking cfg insts s i (rob.thread tid) exiting wide
      capacity sorted going number iterator inside marked
    exact ⟨t, by simp [going, called], walking.mono (by omega)⟩

include wide capacity sorted in
theorem squashCall_squash (exiting : Bool) (lower : squashNum ≤ s)
    (empty : insts = [] → (rob.thread tid).doneSquashing = true)
    (length : (rob.thread tid).instList.length = insts.length)
    (entries : ∀ (j : Nat) (inst : DynInst), insts[j]? = some inst →
      (rob.thread tid).instList[j]? = some inst.squashed ∧
      s < inst.seqNum ∨ (rob.thread tid).instList[j]? = some inst) :
    ∃ t, squashCall cfg tid rob (.squash squashNum exiting) = some (rob.setThread tid t) ∧
      Walking insts squashNum insts.length t := by
  obtain ⟨t, called, walking⟩ := squash_walking exiting
    wide capacity sorted lower length empty entries
  exact ⟨t, by simp [squashCall, ThreadRob.squashCall, called], walking⟩

include wide capacity sorted in
theorem run_walking {calls : List SquashCall} (rob : Rob) (s : InstSeqNum) (remaining : Nat)
    (descending : Descending s calls) (walking : Walking insts s remaining (rob.thread tid)) :
    ∃ t later, Runs.run (squashCall cfg tid) rob calls = some (rob.setThread tid t) ∧
      Walking insts (lowest s calls) later t := by
  induction calls generalizing rob s remaining with
  | nil => exact ⟨rob.thread tid, remaining, by simp, walking⟩
  | cons call calls ih =>
    have step : ∃ t later s', squashCall cfg tid rob call = some (rob.setThread tid t) ∧
        Walking insts s' later t ∧ Descending s' calls ∧
          lowest s' calls = lowest s (call :: calls) := by
      -- a second squash may come while the first one walks; its number is lower
      cases call with
      | doSquash exiting =>
        obtain ⟨t, called, walking⟩ :=
          squashCall_doSquash cfg tid insts wide capacity sorted exiting walking
        exact ⟨t, _, s, called, walking, descending, rfl⟩
      | squash squashNum exiting =>
        obtain ⟨length, entries⟩ := walking.entries
        have empty : insts = [] → (rob.thread tid).doneSquashing = true := by
          intro nothing
          cases walking with
          | done _ _ stopped => exact stopped
          | walk _ _ _ _ _ _ inside => simp [nothing] at inside
        obtain ⟨t, called, walking⟩ := squashCall_squash cfg tid insts wide capacity sorted
          exiting descending.1 empty length entries
        refine ⟨t, _, squashNum, called, walking, descending.2, ?_⟩
        simp [lowest, Nat.min_eq_right descending.1]
    obtain ⟨t, later, s', called, walking, descending, same⟩ := step
    obtain ⟨t', last, ran, walking⟩ := ih (rob.setThread tid t) s' later descending (by simpa)
    refine ⟨t', last, ?_, same ▸ walking⟩
    simpa [Runs.run, called] using ran

include wide capacity sorted in
/-- Enough calls end the walk. -/
theorem run_doSquash_done {exits : List Bool} (rob : Rob) (s : InstSeqNum) (remaining : Nat)
    (enough : remaining ≤ exits.length) (walking : Walking insts s remaining (rob.thread tid)) :
    ∃ ended, Runs.run (squashCall cfg tid) rob (exits.map .doSquash) = some ended ∧
      (ended.thread tid).doneSquashing = true := by
  induction exits generalizing rob remaining with
  | nil =>
    refine ⟨rob, rfl, ?_⟩
    cases walking with
    | done _ _ stopped => exact stopped
    | walk =>
      simp only [List.length_nil] at enough
      omega
  | cons exiting _ ih =>
    obtain ⟨t, called, walking⟩ :=
      squashCall_doSquash cfg tid insts wide capacity sorted exiting walking
    simp only [List.length_cons] at enough
    obtain ⟨ended, ran, stopped⟩ := ih (rob.setThread tid t) (remaining - 1) (by omega) (by simpa)
    exact ⟨ended, by simpa [Runs.run, called] using ran, stopped⟩

end Schedule

/-- A squash, then any calls of `doSquash` with further squashes that reach
further back. No call fails; when the thread is done, exactly the instructions
younger than the lowest number are squashed and able to commit, and nothing else
has changed. From any point, as many more calls as the thread has instructions
end the walk. -/
theorem squash_complete (cfg : RobParams) (rob : Rob) (tid : ThreadID) (s : InstSeqNum)
    (exiting : Bool) (calls : List SquashCall) (wide : 1 ≤ cfg.squashWidth)
    (capacity : (rob.thread tid).instList.length ≤ cfg.numEntries)
    (sorted : (rob.thread tid).instList.Pairwise fun older younger => older.seqNum < younger.seqNum)
    (idle : (rob.thread tid).instList = [] → (rob.thread tid).doneSquashing = true)
    (descending : Descending s calls) :
    ∃ final, Runs.run (squashCall cfg tid) rob (.squash s exiting :: calls) = some final ∧
      final = rob.setThread tid (final.thread tid) ∧ ((final.thread tid).doneSquashing = true →
        (final.thread tid).instList = (rob.thread tid).instList.map fun inst =>
          if lowest s calls < inst.seqNum then inst.squashed else inst) ∧
      ∀ exits : List Bool, (rob.thread tid).instList.length ≤ exits.length →
        ∃ ended, Runs.run (squashCall cfg tid) final (exits.map .doSquash) = some ended ∧
          (ended.thread tid).doneSquashing = true := by
  obtain ⟨t, called, walking⟩ := squashCall_squash cfg tid (rob.thread tid).instList wide
    capacity sorted exiting (Nat.le_refl s) idle rfl (fun _ _ at_j => Or.inr at_j)
  obtain ⟨t', _, ran, walking⟩ := run_walking cfg tid (rob.thread tid).instList wide
    capacity sorted (rob.setThread tid t) s _ descending (by simpa)
  rw [setThread_twice] at ran
  refine ⟨rob.setThread tid t', by simpa [Runs.run, called] using ran, by simp, ?_, ?_⟩
  · rw [setThread_same]
    intro stopped
    cases walking with
    | done _ _ _ finished => exact finished
    | walk _ _ _ going => simp [going] at stopped
  · intro _ enough
    exact run_doSquash_done cfg tid (rob.thread tid).instList wide capacity sorted
      (rob.setThread tid t') (lowest s calls) _ enough (by simpa using walking.bounded)

/-- Three instructions of thread 0. -/
def threeInsts : Rob :=
  resetState.setThread 0 { instList := [{ seqNum := 1 }, { seqNum := 2 }, { seqNum := 3 }] }

theorem squash_complete_restarted : ∃ final, Runs.run (squashCall ⟨3, 1, true⟩ 0) threeInsts
        [.squash 2 false, .squash 1 false, .doSquash false] = some final ∧
      ((final.thread 0).doneSquashing = true →
        (final.thread 0).instList.map DynInst.isSquashed = [false, true, true]) := by
  obtain ⟨final, ran, -, marked, -⟩ := squash_complete ⟨3, 1, true⟩ threeInsts 0 2 false
    [.squash 1 false, .doSquash false] (by decide) (by decide) (by decide) (by decide)
    ⟨by decide, trivial⟩
  refine ⟨final, ran, fun stopped => ?_⟩
  rw [marked stopped]
  decide

end Rob

end RasCache.Cpu
