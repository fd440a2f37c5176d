import RasCache.Cpu.Rob

/-!
# What reaches the Safe History Buffer

`updateVisibleState` sends a memory instruction once everything before it in the
reorder buffer is complete. The walk looks at the instructions before the one it
sends, never at the squashed bit of that instruction itself. This module states
exactly which calls send only instructions that are not squashed.
-/
namespace RasCache.Cpu

/-- The instruction sent is not squashed, and everything before it is ready to
commit, fault-free and not squashed. -/
def ShbSend.Safe (send : ShbSend) : Prop :=
  send.inst.isSquashed = false ∧ ∀ older ∈ send.older, older.clean = true

/-- Every squashed instruction whose packet still waits to be sent has an
instruction before it that is not complete. -/
def SquashedBlocked (insts : List DynInst) : Prop :=
  ∀ before inst behind, insts = before ++ inst :: behind → inst.shtPending = true →
    inst.isSquashed = true → ∃ older ∈ before, older.complete = false

theorem squashedBlocked_cons (inst : DynInst) (rest : List DynInst) :
    SquashedBlocked (inst :: rest) ↔ (inst.shtPending = true → inst.isSquashed = false) ∧
        (inst.complete = true → SquashedBlocked rest) := by
  constructor
  · intro blocked
    constructor
    · -- the first instruction has none before it that could be incomplete
      intro pending
      by_contra squashed
      obtain ⟨_, mem, _⟩ := blocked [] inst rest rfl pending (by simpa using squashed)
      exact absurd mem List.not_mem_nil
    · intro complete before later behind split pending squashed
      obtain ⟨older, mem, incomplete⟩ :=
        blocked (inst :: before) later behind (by rw [split]; rfl) pending squashed
      rcases List.mem_cons.mp mem with rfl | mem
      · rw [complete] at incomplete
        exact absurd incomplete (by decide)
      · exact ⟨older, mem, incomplete⟩
  · rintro ⟨first, later⟩ before sent behind split pending squashed
    cases before with
    | nil =>
      obtain ⟨rfl, rfl⟩ := List.cons.inj split
      rw [first pending] at squashed
      exact absurd squashed (by decide)
    | cons _ before =>
      obtain ⟨rfl, rfl⟩ := List.cons.inj split
      cases complete : inst.complete with
      | false => exact ⟨inst, List.mem_cons_self, complete⟩
      | true =>
        obtain ⟨older, mem, incomplete⟩ := later complete before sent behind rfl pending squashed
        exact ⟨older, List.mem_cons_of_mem inst mem, incomplete⟩

namespace Rob

/-! ### One instruction -/

/-- The walk changes the bookkeeping bits of an instruction only. -/
structure SameStatus (inst seen : DynInst) : Prop where
  clean : seen.clean = inst.clean
  readyOnEntry : seen.readyOnEntry = inst.readyOnEntry
  isControl : seen.isControl = inst.isControl
  isSquashed : seen.isSquashed = inst.isSquashed

/-- An incomplete branch is an incomplete instruction, so the walk never has
complete instructions behind an unresolved branch. -/
def PrevState.Ordered (p : PrevState) : Prop :=
  p.prevInstsComplete = true → p.prevBrsResolved = true

theorem PrevState.pass_ordered (p : PrevState) (inst : DynInst) (ordered : p.Ordered) :
    (p.pass inst).Ordered := by
  intro complete
  simp only [PrevState.pass, Bool.and_eq_true] at complete ⊢
  exact ⟨ordered complete.1.1, by simp [complete.2]⟩

theorem PrevState.pass_complete (p : PrevState) {inst seen : DynInst}
    (same : SameStatus inst seen) :
    (p.pass seen).prevInstsComplete = (p.prevInstsComplete && inst.complete) := by
  simp only [PrevState.pass, DynInst.complete, same.clean, same.readyOnEntry]
  cases p.prevInstsComplete <;> cases inst.clean <;> cases inst.readyOnEntry <;> rfl

/-- The address the walk sends for `inst`. -/
def sentAddr (cfg : RobParams) (doneSquashing : Bool) (p : PrevState) (inst : DynInst) :
    Option Addr :=
  if p.prevInstsComplete && cfg.robInsert && doneSquashing && inst.shtPending then inst.shtPkt
  else none

theorem sentAddr_eq_some_iff (cfg : RobParams) (doneSquashing : Bool) (p : PrevState)
    (inst : DynInst) (addr : Addr) : sentAddr cfg doneSquashing p inst = some addr ↔
      (p.prevInstsComplete = true ∧ cfg.robInsert = true ∧ doneSquashing = true ∧
        inst.shtPending = true) ∧ inst.shtPkt = some addr := by
  simp [sentAddr, and_assoc]

variable {inst : DynInst} {cfg : RobParams} {doneSquashing : Bool} {p : PrevState}
  {tid : ThreadID} {insts : List DynInst} {seen : DynInst}

/-- What is sent for one instruction is unsquashed exactly when the instruction
is, or nothing is sent. -/
theorem sentAddr_unsquashed_iff (cfg : RobParams) (tid : ThreadID) (doneSquashing : Bool)
    (p : PrevState) (older : List DynInst) (same : SameStatus inst seen) :
    (∀ send ∈ ((sentAddr cfg doneSquashing p inst).map
        fun addr => (⟨tid, older, seen, addr⟩ : ShbSend)).toList, send.inst.isSquashed = false) ↔
      (p.prevInstsComplete = true → cfg.robInsert = true → doneSquashing = true →
        inst.shtPending = true → inst.isSquashed = false) := by
  simp only [Option.mem_toList, Option.map_eq_some_iff, sentAddr_eq_some_iff]
  constructor
  · intro unsquashed complete robInsert done pending
    have built : inst.shtPkt.isSome = true := by
      simp only [DynInst.shtPending, Bool.and_eq_true] at pending
      exact pending.2
    obtain ⟨addr, packet⟩ := Option.isSome_iff_exists.mp built
    rw [← same.isSquashed]
    exact unsquashed _ ⟨addr, ⟨⟨complete, robInsert, done, pending⟩, packet⟩, rfl⟩
  · rintro unsquashed _ ⟨addr, ⟨⟨complete, robInsert, done, pending⟩, _⟩, rfl⟩
    exact same.isSquashed.trans (unsquashed complete robInsert done pending)

theorem visitInst_returned {sent : Option Addr}
    (ret : visitInst cfg doneSquashing p inst = some (seen, sent)) :
    sent = sentAddr cfg doneSquashing p inst ∧ SameStatus inst seen := by
  unfold visitInst at ret
  split at ret
  next =>
    unfold visitMem at ret
    cases resolved : p.prevBrsResolved <;>
      simp only [resolved, Bool.false_eq_true, ↓reduceIte] at ret <;>
      split_ifs at ret <;>
      cases ret <;>
      exact ⟨by grind [sentAddr, DynInst.shtPending], ⟨rfl, rfl, rfl, rfl⟩⟩
  next notMem =>
    cases ret
    exact ⟨by simp [sentAddr, DynInst.shtPending, notMem], ⟨rfl, rfl, rfl, rfl⟩⟩

theorem visitInst_total (cfg : RobParams) (doneSquashing : Bool) (inst : DynInst)
    (ordered : p.Ordered) :
    ∃ seen sent, visitInst cfg doneSquashing p inst = some (seen, sent) := by
  unfold visitInst visitMem
  cases complete : p.prevInstsComplete with
  | false => split <;> exact ⟨_, _, rfl⟩
  | true =>
    have resolved := ordered complete
    simp only [resolved, ↓reduceIte]
    split_ifs <;> exact ⟨_, _, rfl⟩

/-! ### The walk over a thread -/

theorem visitInsts_total (cfg : RobParams) (tid : ThreadID) (doneSquashing : Bool)
    (p : PrevState) (older insts : List DynInst) (ordered : p.Ordered) :
    ∃ result, visitInsts cfg tid doneSquashing p older insts = some result := by
  induction insts generalizing p older with
  | nil => exact ⟨_, rfl⟩
  | cons inst _ ih =>
    simp only [visitInsts]
    split
    · exact ⟨_, rfl⟩
    · obtain ⟨seen, _, visited⟩ := visitInst_total cfg doneSquashing inst ordered
      obtain ⟨_, walked⟩ := ih (p.pass seen) (older ++ [seen]) (p.pass_ordered seen ordered)
      exact ⟨_, by simp [visited, walked]; rfl⟩

/-- What one round of the walk does when it does not stop. -/
theorem visitInsts_cons {older rest : List DynInst} {sends : List ShbSend}
    (ret : visitInsts cfg tid doneSquashing p older (inst :: rest) = some (insts, sends)) :
    (p.prevInstsComplete = false ∧ sends = []) ∨ ∃ seen more, SameStatus inst seen ∧
      visitInsts cfg tid doneSquashing (p.pass seen) (older ++ [seen]) rest =
        some (insts, more) ∧ sends = ((sentAddr cfg doneSquashing p inst).map
        fun addr => ⟨tid, older, seen, addr⟩).toList ++ more := by
  simp only [visitInsts] at ret
  split at ret
  next =>
    cases ret
    exact .inl ⟨by simp_all, rfl⟩
  next =>
    simp only [Option.bind_eq_bind, Option.bind_eq_some_iff, Prod.exists] at ret
    obtain ⟨seen, _, visited, _, more, walked, built⟩ := ret
    obtain ⟨rfl, same⟩ := visitInst_returned visited
    cases built
    exact .inr ⟨seen, more, same, walked, rfl⟩

variable {result : List DynInst}

/-- Everything before a sent instruction is clean: the flag `prevInstsComplete`
says so of what the walk has passed. -/
theorem visitInsts_older_clean (p : PrevState) (older : List DynInst) (sends : List ShbSend)
    (passed : p.prevInstsComplete = true → ∀ o ∈ older, o.clean = true)
    (ret : visitInsts cfg tid doneSquashing p older insts = some (result, sends)) :
    ∀ send ∈ sends, ∀ o ∈ send.older, o.clean = true := by
  induction insts generalizing p older sends with
  | nil =>
    cases ret
    simp
  | cons inst _ ih =>
    rcases visitInsts_cons ret with
      ⟨_, rfl⟩ | ⟨seen, more, same, walked, rfl⟩
    · simp
    · -- the flag says that all instructions passed are clean
      have complete_seen := p.pass_complete same
      have passed_seen : (p.pass seen).prevInstsComplete = true →
          ∀ o ∈ older ++ [seen], o.clean = true := by
        intro complete o mem
        rw [complete_seen, Bool.and_eq_true] at complete
        rcases List.mem_append.mp mem with earlier | last
        · exact passed complete.1 o earlier
        · rw [List.mem_singleton.mp last, same.clean]
          exact (Bool.and_eq_true _ _ ▸ complete.2 : _ ∧ _).1
      intro send mem
      rcases List.mem_append.mp mem with here | later
      · simp only [Option.mem_toList, Option.map_eq_some_iff, sentAddr_eq_some_iff] at here
        obtain ⟨_, ⟨⟨complete, _⟩, _⟩, rfl⟩ := here
        exact passed complete
      · exact ih (p.pass seen) (older ++ [seen]) more passed_seen walked send later

theorem visitInsts_unsquashed_iff (p : PrevState) (older : List DynInst) (sends : List ShbSend)
    (ret : visitInsts cfg tid doneSquashing p older insts = some (result, sends)) :
    (∀ send ∈ sends, send.inst.isSquashed = false) ↔
      (p.prevInstsComplete = true → cfg.robInsert = true → doneSquashing = true →
        SquashedBlocked insts) := by
  induction insts generalizing p older sends with
  | nil =>
    cases ret
    simp [SquashedBlocked]
  | cons inst _ ih =>
    rcases visitInsts_cons ret with
      ⟨stopped, rfl⟩ | ⟨seen, more, same, walked, rfl⟩
    · simp [stopped]
    · rw [List.forall_mem_append, sentAddr_unsquashed_iff cfg tid doneSquashing p older same,
        ih (p.pass seen) (older ++ [seen]) more walked,
        p.pass_complete same, squashedBlocked_cons]
      simp only [Bool.and_eq_true]
      tauto

/-! ### The walk over all threads -/

theorem visitThreads_total (cfg : RobParams) (tids : List ThreadID) (rob : Rob) :
    ∃ result, visitThreads cfg tids rob = some result := by
  induction tids generalizing rob with
  | nil => exact ⟨_, rfl⟩
  | cons tid _ ih =>
    obtain ⟨⟨insts, sends⟩, walked⟩ := visitInsts_total cfg tid
      (rob.thread tid).doneSquashing {} [] (rob.thread tid).instList (fun _ => rfl)
    obtain ⟨⟨rob', more⟩, rest⟩ :=
      ih (rob.setThread tid { rob.thread tid with instList := insts })
    exact ⟨(rob', sends ++ more), by simp [visitThreads, walked, rest]⟩

/-- The walk never fails: its assertion holds in every state. -/
theorem updateVisibleState_total (cfg : RobParams) (rob : Rob) :
    ∃ result, rob.updateVisibleState cfg = some result :=
  visitThreads_total cfg rob.activeThreads rob

theorem visitThreads_safe_iff {tids : List ThreadID} (nodup : tids.Nodup) (rob : Rob) {rob' : Rob}
    (sends : List ShbSend) (ret : visitThreads cfg tids rob = some (rob', sends)) :
    (∀ send ∈ sends, send.Safe) ↔
      (cfg.robInsert = true → ∀ tid ∈ tids, (rob.thread tid).doneSquashing = true →
        SquashedBlocked (rob.thread tid).instList) := by
  induction tids generalizing rob sends with
  | nil =>
    cases ret
    simp
  | cons tid tids ih =>
    obtain ⟨fresh, nodup⟩ := List.nodup_cons.mp nodup
    simp only [visitThreads, Option.bind_eq_bind, Option.bind_eq_some_iff, Prod.exists] at ret
    obtain ⟨insts, own, walked, _, more, rest, built⟩ := ret
    cases built
    have clean := visitInsts_older_clean {} [] own (by simp) walked
    have unsquashed := (visitInsts_unsquashed_iff {} [] own walked).trans
      (forall_prop_of_true rfl)
    have own_safe : (∀ send ∈ own, send.Safe) ↔ ∀ send ∈ own, send.inst.isSquashed = false :=
      forall₂_congr fun send mem => and_iff_left (clean send mem)
    -- the walk over this thread leaves the other threads' lists alone
    have others : ∀ other ∈ tids,
        (rob.setThread tid { rob.thread tid with instList := insts }).thread other =
          rob.thread other := fun other mem =>
      Function.update_of_ne (fun same : other = tid => fresh (same ▸ mem)) _ _
    rw [List.forall_mem_append, own_safe, unsquashed, ih nodup _ more rest, List.forall_mem_cons]
    have tail : (∀ other ∈ tids,
          ((rob.setThread tid { rob.thread tid with instList := insts }).thread other).doneSquashing
              = true →
            SquashedBlocked
              ((rob.setThread tid { rob.thread tid with instList := insts }).thread other).instList)
        ↔ ∀ other ∈ tids, (rob.thread other).doneSquashing = true →
            SquashedBlocked (rob.thread other).instList :=
      forall₂_congr fun other mem => by rw [others other mem]
    rw [tail]
    exact imp_and.symm

/-! ### Whole runs -/

/-- What the step `e` sends to the history buffer is safe. -/
def HistorySafe (cfg : RobParams) (rob : Rob) (e : Event) : Prop :=
  e = .updateVisibleState →
    ∀ rob' sends, rob.updateVisibleState cfg = some (rob', sends) → ∀ send ∈ sends, send.Safe

/-- Before a call of `updateVisibleState`, no squashed instruction that could be
sent stands behind complete instructions only, in any active thread whose squash
is done. -/
def SquashedBlockedAtWalk (cfg : RobParams) (rob : Rob) (e : Event) : Prop :=
  e = .updateVisibleState → cfg.robInsert = true →
    ∀ tid ∈ rob.activeThreads, (rob.thread tid).doneSquashing = true →
      SquashedBlocked (rob.thread tid).instList

/-- In every run from reset, the history buffer receives safe instructions only
exactly when every call of `updateVisibleState` finds the squashed instructions
blocked. -/
theorem historySafe_run_iff (cfg : RobParams) (events : List Event) :
    Runs.Along (step cfg) (HistorySafe cfg) resetState events ↔
      Runs.Along (step cfg) (SquashedBlockedAtWalk cfg) resetState events := by
  refine Runs.along_congr (fun rob e => ?_) resetState events
  refine imp_congr_right fun _ => ?_
  obtain ⟨⟨_, sends⟩, ret⟩ := updateVisibleState_total cfg rob
  rw [← visitThreads_safe_iff rob.nodup rob sends ret, ret]
  simp

/-- A resolved branch, and the load fetched behind it on the wrong path. -/
def wrongPathLoad : List Event :=
  [.activateThread 0,
   .insertInst 0 { seqNum := 1, isControl := true },
   .insertInst 0 { seqNum := 2, isLoad := true },
   .buildShtPacket 0 1 64,
   .setCanCommit 0 0,
   .squash 0 1 false,
   .updateVisibleState]

/-- The misprediction squash ends within the call that starts it, and the walk
behind it sends the address of the squashed load. -/
theorem wrongPathLoad_sent :
    ¬ Runs.Along (step ⟨192, 8, true⟩) (HistorySafe ⟨192, 8, true⟩) resetState wrongPathLoad := by
  intro safe
  have sent := safe.2 _ rfl |>.2 _ rfl |>.2 _ rfl |>.2 _ rfl |>.2 _ rfl |>.2 _ rfl |>.1
    rfl _ _ rfl _ List.mem_cons_self
  exact absurd sent.1 (by decide)

end Rob

end RasCache.Cpu
