import RasCache.Cpu.Renaming

/-!
# Renaming conserves registers and squashes restore the map

The history buffer is an undo log of the rename map, so the walks of the stage
agree with a stage that saves the whole map before every instruction and returns
to a saved map at a squash. This holds over every run of renamed instructions,
commits and squashes, changes of the vector renaming mode included.
-/
namespace RasCache.Cpu.Rename

open Thread Function

variable {file : RegFile}

/-! ## Changing the vector renaming mode -/

/-- The class of vector registers that the mode renames. -/
def VecMode.vecClass : VecMode → RegClass
  | .full => .vec
  | .elem => .vecElem

theorem renames_vecClass (mode : VecMode) : mode.renames mode.vecClass = true := by
  cases mode <;> rfl

variable {mode : VecMode} {st : Thread} {entry : RenameHistory} {c : RegClass} {arch : RegId}
  {dests : List RegId}

/-- The two modes differ in the vector classes only. -/
theorem renames_switch {other : VecMode} (different : mode ≠ other) (c : RegClass) :
    mode.renames c = true ↔ c = mode.vecClass ∨ c ≠ other.vecClass ∧ other.renames c = true := by
  cases mode <;> cases other <;> cases c <;> simp_all [VecMode.renames, VecMode.vecClass]

/-- All registers but the mapped ones are free where no entry holds one back. -/
theorem Conserved.all_free_iff (conserved : Conserved file st)
    (renames : st.vecMode.renames c = true) :
    (st.freeList c).length = file.numPhysRegs c - file.numRegs c ↔
      prevRegs c st.historyBuffer = [] := by
  have total := (conserved.places c renames).length_eq
  have mapped := conserved.sizes c renames
  have enough := file.enough c
  simp only [List.length_append, length_ids] at total
  rw [← List.length_eq_zero_iff]
  omega

variable {history : List RenameHistory}

theorem Conserved.prevRegs_eq_nil_iff (conserved : Conserved file st) {c : RegClass} :
    prevRegs c st.historyBuffer = [] ↔
      ∀ entry ∈ st.historyBuffer, entry.changed = true → entry.archReg.regClass ≠ c := by
  simp only [prevRegs, List.map_eq_nil_iff, List.filter_eq_nil_iff, Bool.and_eq_true,
    decide_eq_true_eq, not_and]
  refine forall₂_congr fun entry mem => imp_congr_right fun changed => ?_
  rw [(conserved.sound entry mem changed).prevClass]

theorem Conserved.prevRegs_idle (conserved : Conserved file st) {c : RegClass}
    (stays : st.vecMode.renames c = false) : prevRegs c st.historyBuffer = [] := by
  rw [conserved.prevRegs_eq_nil_iff]
  rintro entry mem changed rfl
  rw [(conserved.sound entry mem changed).renames] at stays
  cases stays

theorem setMap_update (reg : PhysRegId) (map : RenameMap) (regs : List PhysRegId)
    (other : arch.regClass ≠ c) : setMap arch reg (update map c regs) =
      update (setMap arch reg map) c regs := by
  simp only [setMap, update_of_ne other]
  exact update_comm other.symm _ _ _

theorem undo_update (map : RenameMap) (regs : List PhysRegId)
    (other : entry.changed = true → entry.archReg.regClass ≠ c) :
    entry.undo (update map c regs) = update (entry.undo map) c regs := by
  unfold RenameHistory.undo
  split
  next changed => exact setMap_update _ _ _ (other changed)
  · rfl

theorem undoable_update (map : RenameMap) (regs : List PhysRegId)
    (other : ∀ entry ∈ history, entry.changed = true → entry.archReg.regClass ≠ c)
    (undoable : Undoable map history) : Undoable (update map c regs) history := by
  induction history generalizing map with
  | nil => trivial
  | cons entry _ ih =>
    have here := other entry List.mem_cons_self
    refine ⟨fun changed => ?_, ?_⟩
    · rw [update_of_ne (here changed)]
      exact undoable.1 changed
    · rw [undo_update map regs here]
      exact ih _ (fun later mem => other later (List.mem_cons_of_mem _ mem)) undoable.2

/-- The vector registers move from one view to the other. -/
theorem Conserved.switched (conserved : Conserved file st) (mode : VecMode)
    (different : mode ≠ st.vecMode) (regs free : List PhysRegId)
    (none_held : prevRegs st.vecMode.vecClass st.historyBuffer = [])
    (size : regs.length = file.numRegs mode.vecClass)
    (all : (free ++ regs).Perm (file.ids mode.vecClass)) :
    Conserved file { st with
      vecMode := mode
      renameMap := update st.renameMap mode.vecClass regs
      freeList :=
        update (update st.freeList mode.vecClass free)
          st.vecMode.vecClass [] } := by
  have apart : mode.vecClass ≠ st.vecMode.vecClass := by
    revert different
    cases mode <;> cases st.vecMode <;> simp [VecMode.vecClass]
  have idle_new : st.vecMode.renames mode.vecClass = false := by
    refine eq_false_of_ne_true fun renames => ?_
    rcases (renames_switch different.symm mode.vecClass).mp renames with same | ⟨same, -⟩
    · exact apart same
    · exact same rfl
  -- no entry that changed anything is of either class
  have outside : ∀ entry ∈ st.historyBuffer, entry.changed = true →
      entry.archReg.regClass ≠ st.vecMode.vecClass ∧ entry.archReg.regClass ≠ mode.vecClass := by
    intro entry mem changed
    have sound := conserved.sound entry mem changed
    refine ⟨conserved.prevRegs_eq_nil_iff.mp none_held entry mem changed, fun same => ?_⟩
    have renames := sound.renames
    rw [same, idle_new] at renames
    cases renames
  refine ⟨?_, ?_, ?_, ?_, ?_, ?_, conserved.unpinned⟩
  · intro c renames
    show (update st.renameMap mode.vecClass regs c).length = _
    rcases (renames_switch different c).mp renames with rfl | ⟨-, before⟩
    · rw [update_self, size]
    · rw [update_of_ne (fun same => by rw [same, idle_new] at before; cases before)]
      exact conserved.sizes c before
  · intro c renames
    show (update (update st.freeList mode.vecClass free)
      st.vecMode.vecClass [] c ++
      update st.renameMap mode.vecClass regs c ++ prevRegs c st.historyBuffer).Perm _
    -- the class of the new mode gets its registers, every other one keeps them
    rcases (renames_switch different c).mp renames with rfl | ⟨other, before⟩
    · rw [update_of_ne apart, update_self, update_self,
        conserved.prevRegs_idle idle_new, List.append_nil]
      exact all
    · have distinct : c ≠ mode.vecClass := by
        intro same
        rw [same, idle_new] at before
        cases before
      rw [update_of_ne other, update_of_ne distinct, update_of_ne distinct]
      exact conserved.places c before
  · intro c stays
    show update (update st.freeList mode.vecClass free)
      st.vecMode.vecClass [] c = []
    by_cases old : c = st.vecMode.vecClass
    · rw [old, update_self]
    · have new : c ≠ mode.vecClass := by
        rintro rfl
        rw [renames_vecClass] at stays
        cases stays
      rw [update_of_ne old, update_of_ne new]
      refine conserved.idle c (eq_false_of_ne_true fun before => ?_)
      have renames := (renames_switch different c).mpr (.inr ⟨old, before⟩)
      rw [stays] at renames
      cases renames
  · exact undoable_update _ _ (fun entry mem changed => (outside entry mem changed).2)
      conserved.undoable
  · intro entry mem changed
    -- a class that is renamed before and after keeps its entries
    have sound := conserved.sound entry mem changed
    exact { sound with
      renames := (renames_switch different _).mpr
        (.inr ⟨(outside entry mem changed).1, sound.renames⟩) }
  · intro bound
    have int : RegClass.int ≠ mode.vecClass := by cases mode <;> simp [VecMode.vecClass]
    show (update st.renameMap mode.vecClass regs .int)[file.zeroReg]? = _
    rw [update_of_ne int]
    exact conserved.zero bound

/-- The elements of all vector registers, one register after the other. -/
theorem flatMap_elemIds : (file.ids .vec).flatMap file.elemIds = file.ids .vecElem := by
  have all (n : Nat) : ((List.range n).map fun index => (⟨.vec, index⟩ : PhysRegId)).flatMap
      file.elemIds =
      (List.range (n * file.numVecElemPerVecReg)).map fun index => ⟨.vecElem, index⟩ := by
    induction n with
    | zero => simp
    | succ _ ih =>
      rw [List.range_succ, List.map_append, List.flatMap_append, ih, Nat.succ_mul, List.range_add,
        List.map_append]
      simp [RegFile.elemIds, comp_def]
  rw [RegFile.ids, RegFile.ids, file.numPhysRegs_vecElem]
  exact all _

/-- A change of mode panics unless every register of the old view is free or mapped. -/
theorem Conserved.switchFreeList_isSome_iff (conserved : Conserved file st)
    (different : mode ≠ st.vecMode) : (switchFreeList file mode st.freeList).isSome = true ↔
      prevRegs st.vecMode.vecClass st.historyBuffer = [] := by
  have idle : st.freeList mode.vecClass = [] := by
    refine conserved.idle _ ?_
    revert different
    cases mode <;> cases st.vecMode <;> simp [VecMode.renames, VecMode.vecClass]
  rw [← conserved.all_free_iff (renames_vecClass _)]
  unfold switchFreeList
  cases mode <;> cases old : st.vecMode <;> simp_all [VecMode.vecClass]

theorem Conserved.switch_conserved (conserved : Conserved file st) {mode : VecMode}
    (different : mode ≠ st.vecMode) {free : FreeList}
    (switched : switchFreeList file mode st.freeList = some free) :
    Conserved file { st with
      vecMode := mode
      renameMap := switchMode file mode st.renameMap
      freeList := free } := by
  have none_held := (conserved.switchFreeList_isSome_iff different).mp (switched ▸ rfl)
  have kept := conserved.switched mode different
  cases mode with
  | full =>
    -- the registers are handed out again, the first ones to the map
    have before : st.vecMode = .elem := by
      cases old : st.vecMode
      · exact absurd old.symm different
      · rfl
    rw [before] at kept none_held
    simp only [switchFreeList] at switched
    split at switched
    · cases switched
    split at switched
    · cases switched
    cases switched
    refine kept _ _ none_held ?_ ?_
    · rw [List.length_take, length_ids]
      exact Nat.min_eq_left (file.enough .vec)
    · exact List.perm_append_comm.trans (.of_eq (List.take_append_drop _ _))
  | elem =>
    have before : st.vecMode = .full := by
      cases old : st.vecMode
      · rfl
      · exact absurd old.symm different
    -- the elements of the registers are in the same places as the registers were
    have places := conserved.places .vec (by rw [before]; rfl)
    have sizes := conserved.sizes .vec (by rw [before]; rfl)
    rw [before] at kept none_held
    rw [show prevRegs .vec st.historyBuffer = [] from none_held, List.append_nil] at places
    simp only [switchFreeList] at switched
    split at switched
    · cases switched
    split at switched
    · cases switched
    cases switched
    refine kept _ _ none_held ?_ ?_
    · simp [VecMode.vecClass, file.numRegs_vecElem, ← sizes, List.length_flatMap, RegFile.elemIds]
    · rw [← List.flatMap_append]
      exact (places.flatMap_right file.elemIds).trans (.of_eq flatMap_elemIds)

/-- The map as the other mode sees it. -/
def inMode (file : RegFile) (before after : VecMode) (map : RenameMap) : RenameMap :=
  if after = before then map else switchMode file after map

theorem undo_other (map : RenameMap) (other : entry.changed = true → entry.archReg.regClass ≠ c) :
    entry.undo map c = map c := by
  unfold RenameHistory.undo
  split
  next changed => exact setMap_other _ _ (other changed).symm
  · rfl

theorem undo_switchMode (mode : VecMode) (map : RenameMap)
    (vec : entry.changed = true → entry.archReg.regClass ≠ .vec)
    (elem : entry.changed = true → entry.archReg.regClass ≠ .vecElem) :
    entry.undo (switchMode file mode map) = switchMode file mode (entry.undo map) := by
  cases mode with
  | full => exact undo_update map _ vec
  | elem =>
    simp only [switchMode, undo_other map vec]
    exact undo_update map _ elem

variable {state : Tracked} {next : Thread}

theorem switchRenameMode_spec (conserved : Conserved file st)
    (ran : st.switchRenameMode file mode = some next) :
    Conserved file next ∧ next.historyBuffer = st.historyBuffer ∧
      next.renameMap = inMode file st.vecMode mode st.renameMap ∧
      ∀ entry ∈ st.historyBuffer, ∀ map, entry.undo (inMode file st.vecMode mode map) =
        inMode file st.vecMode mode (entry.undo map) := by
  unfold Thread.switchRenameMode at ran
  by_cases same : mode = st.vecMode
  · rw [if_pos same] at ran
    cases ran
    have unchanged (map : RenameMap) : inMode file st.vecMode mode map = map := if_pos same
    refine ⟨conserved, rfl, (unchanged _).symm, fun entry _ map => ?_⟩
    rw [unchanged, unchanged]
  · rw [if_neg same] at ran
    simp only [inMode, if_neg same]
    split at ran
    · cases ran
    next free switched =>
      cases ran
      -- The free list is complete, so the old view is not in the history.
      have none_held := (conserved.switchFreeList_isSome_iff same).mp (switched ▸ rfl)
      have idle : prevRegs mode.vecClass st.historyBuffer = [] := by
        refine conserved.prevRegs_idle ?_
        cases mode <;> cases old : st.vecMode <;> simp_all [VecMode.renames, VecMode.vecClass]
      have apart (c : RegClass) (held : prevRegs c st.historyBuffer = [])
          (entry : RenameHistory) (mem : entry ∈ st.historyBuffer)
          (changed : entry.changed = true) : entry.archReg.regClass ≠ c :=
        conserved.prevRegs_eq_nil_iff.mp held entry mem changed
      refine ⟨?_, rfl, rfl, fun entry mem map => ?_⟩
      · exact conserved.switch_conserved same switched
      · cases mode <;> cases old : st.vecMode
        · exact absurd old.symm same
        · rw [old] at none_held
          exact undo_switchMode _ map (apart .vec idle entry mem)
            (apart .vecElem none_held entry mem)
        · rw [old] at none_held
          exact undo_switchMode _ map (apart .vec none_held entry mem)
            (apart .vecElem idle entry mem)
        · exact absurd old.symm same

/-! ## Nothing gets stuck -/

/-- The architectural register exists and can be a destination in this mode. -/
def RegFile.Names (file : RegFile) (mode : VecMode) (arch : RegId) : Prop :=
  (arch.regClass = .misc ∨ mode.renames arch.regClass = true) ∧
    arch.flatIndex < file.numRegs arch.regClass

/-- There are enough free registers for the destinations. -/
def Thread.Serves (st : Thread) (dests : List RegId) : Prop :=
  ∀ c, st.vecMode.renames c = true → numDestRegs c dests ≤ (st.freeList c).length

theorem Thread.Serves.tail (serves : st.Serves (arch :: dests)) : st.Serves dests := by
  intro c renames
  have bound := serves c renames
  rw [numDestRegs, List.countP_cons] at bound
  exact Nat.le_trans (Nat.le_add_right _ _) bound

theorem serves_of_canRename (can : st.canRename dests = true) : st.Serves dests := by
  intro c renames
  simp only [Thread.canRename, List.all_eq_true, decide_eq_true_eq] at can
  refine can c ?_
  have notMisc := ne_misc_of_renames renames
  cases c <;> simp at notMisc ⊢

theorem rename_returns (conserved : Conserved file st) (names : file.Names st.vecMode arch)
    (serves : st.Serves (arch :: dests)) :
    ∃ new prev next, st.rename file arch = some ((new, prev), next) ∧ next.Serves dests := by
  by_cases misc : arch.regClass = .misc
  · have found : st.lookup file arch = some ⟨.misc, arch.flatIndex⟩ := by
      simp only [Thread.lookup, if_pos misc, if_pos (misc ▸ names.2)]
    exact ⟨⟨.misc, arch.flatIndex⟩, ⟨.misc, arch.flatIndex⟩, st,
      by simp only [Thread.rename, found, if_pos misc], serves.tail⟩
  have renames := names.1.resolve_left misc
  obtain ⟨prev, held⟩ : ∃ prev, (st.renameMap arch.regClass)[arch.flatIndex]? = some prev := by
    refine ⟨_, List.getElem?_eq_getElem ?_⟩
    rw [conserved.sizes _ renames]
    exact names.2
  have found : st.lookup file arch = some prev := by
    simp only [Thread.lookup, if_neg misc, if_pos renames, held]
  by_cases zero : file.isZeroArch arch = true
  · -- The zero register is still mapped to the physical one.
    obtain ⟨int, index⟩ : arch.regClass = .int ∧ arch.flatIndex = file.zeroReg := by
      simpa [RegFile.isZeroArch] using zero
    have mapped := conserved.zero (by rw [← int, ← index]; exact names.2)
    rw [int, index, mapped] at held
    cases held
    have isZero : file.isZeroReg ⟨.int, file.zeroReg⟩ = true := by simp [RegFile.isZeroReg]
    exact ⟨⟨.int, file.zeroReg⟩, ⟨.int, file.zeroReg⟩, st,
      by simp only [Thread.rename, found, if_neg misc, if_pos zero, if_pos isZero], serves.tail⟩
  · have some_free := serves arch.regClass renames
    rw [numDestRegs, List.countP_cons_of_pos (by simp)] at some_free
    obtain ⟨first, rest, free⟩ := List.exists_cons_of_length_pos
      (Nat.lt_of_lt_of_le (Nat.succ_pos _) some_free)
    refine ⟨first, prev, { st with
      freeList := update st.freeList arch.regClass rest
      renameMap := setMap arch first st.renameMap
      numPinnedWrites := update st.numPinnedWrites first arch.numPinnedWrites }, ?_, ?_⟩
    · simp only [Thread.rename, found, if_neg misc, if_neg zero, conserved.unpinned, Thread.getReg,
        free, Nat.lt_irrefl, if_false]
    · intro c served
      show _ ≤ (update st.freeList arch.regClass rest c).length
      by_cases here : c = arch.regClass
      · subst here
        rw [free, List.length_cons] at some_free
        rw [update_self]
        exact Nat.le_of_succ_le_succ some_free
      · rw [update_of_ne here]
        exact serves.tail c served

theorem renameDestRegs_returns (seqNum : InstSeqNum) (st : Thread) (conserved : Conserved file st)
    (names : ∀ arch ∈ dests, file.Names st.vecMode arch ∧ arch.numPinnedWrites = 0)
    (serves : st.Serves dests) : ∃ next, renameDestRegs file seqNum dests st = some next := by
  induction dests generalizing st with
  | nil => exact ⟨st, rfl⟩
  | cons arch _ ih =>
    obtain ⟨named, notPinned⟩ := names arch List.mem_cons_self
    obtain ⟨new, prev, mid, taken, enough⟩ := rename_returns conserved named serves
    obtain ⟨kept, -, -, mode⟩ := conserved.renamed seqNum arch notPinned new prev mid taken
    obtain ⟨next, ran⟩ := ih _ kept
      (fun later mem => mode ▸ names later (List.mem_cons_of_mem _ mem)) enough
    exact ⟨next, by simp only [renameDestRegs, taken, ran]⟩

/-! ## Whole runs -/

theorem init_conserved (mode : VecMode) : Conserved file (init file mode) where
  sizes := by
    intro c renames
    simp only [init] at renames ⊢
    rw [if_pos renames, List.length_take, length_ids]
    exact Nat.min_eq_left (file.enough c)
  places := by
    intro _ renames
    simp only [init] at renames ⊢
    rw [if_pos renames, if_pos renames, prevRegs_nil, List.append_nil]
    exact List.perm_append_comm.trans (.of_eq (List.take_append_drop _ _))
  idle := by
    intro _ stays
    simp only [init] at stays ⊢
    rw [if_neg (by simp [stays])]
  undoable := trivial
  sound := by simp [init]
  zero := by
    intro bound
    have renames : mode.renames .int = true := by cases mode <;> rfl
    simp only [init]
    rw [if_pos renames, List.getElem?_take_of_lt bound, RegFile.ids, List.getElem?_map,
      List.getElem?_range (Nat.lt_of_lt_of_le bound (file.enough .int))]
    rfl
  unpinned _ := rfl

/-- The stage beside the maps it had before each instruction that is renamed and
neither committed nor squashed, the newest one first. -/
abbrev Tracked := Thread × List (InstSeqNum × RenameMap)

def trackedStep (file : RegFile) (state : Tracked) (event : Event) : Option Tracked :=
  (step file state.1 event).map fun next =>
    match event with
    | .rename inst =>
      if state.1.canRename inst.dests then
        (next, (inst.seqNum, state.1.renameMap) :: state.2)
      else (next, state.2)
    | .commit instSeqNum => (next, state.2.filter fun point => instSeqNum < point.1)
    | .squash squashedSeqNum mode =>
      (next, (state.2.filter fun point => point.1 ≤ squashedSeqNum).map fun point =>
        (point.1, inMode file state.1.vecMode mode point.2))

/-- Instructions are renamed in program order, and none of their destination
registers is pinned. -/
def InOrder (state : Tracked) : Event → Prop
  | .rename inst =>
    (∀ point ∈ state.2, point.1 < inst.seqNum) ∧ ∀ arch ∈ inst.dests, arch.numPinnedWrites = 0
  | _ => True

instance (state : Tracked) (event : Event) : Decidable (InOrder state event) :=
  match event with
  | .rename inst => inferInstanceAs (Decidable
      ((∀ point ∈ state.2, point.1 < inst.seqNum) ∧ ∀ arch ∈ inst.dests, arch.numPinnedWrites = 0))
  | .commit _ => inferInstanceAs (Decidable True)
  | .squash _ _ => inferInstanceAs (Decidable True)

/-- The invariant of a run: the registers are conserved, and the history buffer
leads back to every saved map. -/
structure Tracks (file : RegFile) (state : Tracked) : Prop where
  conserved : Conserved file state.1
  keeps : UndoLog.Keeps RenameHistory.instSeqNum RenameHistory.undo state.1.historyBuffer
    state.1.renameMap state.2

/-- A squash restores the saved map, as the mode after the squash sees it. -/
theorem doSquash_spec (tracks : Tracks file state) {s : InstSeqNum}
    (ran : state.1.doSquash file s mode = some next) :
    Tracks file (next, (state.2.filter fun point => point.1 ≤ s).map fun point =>
      (point.1, inMode file state.1.vecMode mode point.2)) ∧ next.renameMap =
        inMode file state.1.vecMode mode (UndoLog.restored s state.2 state.1.renameMap) := by
  obtain ⟨_, walked, conserved, left, unwound, sameMode⟩ := squashLoop_spec s
    state.1 tracks.conserved rfl tracks.keeps.newestFirst
  simp only [Thread.doSquash, walked] at ran
  obtain ⟨final, history, map, commutes⟩ := switchRenameMode_spec conserved ran
  have kept := tracks.keeps.squash s
  rw [← unwound, ← left] at kept
  rw [sameMode] at map commutes
  refine ⟨⟨final, ?_⟩, ?_⟩
  · show UndoLog.Keeps _ _ next.historyBuffer next.renameMap _
    rw [history, map]
    exact kept.changed _ commutes
  · rw [map, unwound, tracks.keeps.restores s]

/-- A squash can switch the vector renaming mode unless an instruction that it leaves in flight
has renamed a vector register. -/
def Thread.CanSwitch (st : Thread) (s : InstSeqNum) (mode : VecMode) : Prop :=
  mode = st.vecMode ∨ ∀ entry ∈ st.historyBuffer, entry.instSeqNum ≤ s → entry.changed = true →
    entry.archReg.regClass ≠ st.vecMode.vecClass

theorem doSquash_returns_iff (tracks : Tracks file state) (s : InstSeqNum) (mode : VecMode) :
    (∃ next, state.1.doSquash file s mode = some next) ↔ state.1.CanSwitch s mode := by
  obtain ⟨mid, walked, conserved, left, -, sameMode⟩ := squashLoop_spec s
    state.1 tracks.conserved rfl tracks.keeps.newestFirst
  simp only [Thread.doSquash, walked, Thread.switchRenameMode, Thread.CanSwitch, ← sameMode]
  by_cases same : mode = mid.vecMode
  · simp [same]
  have free := (conserved.switchFreeList_isSome_iff same).trans conserved.prevRegs_eq_nil_iff
  simp only [left, List.mem_filter, decide_eq_true_eq, and_imp] at free
  rw [if_neg same, ← free]
  cases switchFreeList file mode mid.freeList <;> simp [same]

theorem trackedStep_tracks (state : Tracked) (event : Event) (after : Tracked)
    (tracks : Tracks file state) (ordered : InOrder state event)
    (taken : trackedStep file state event = some after) : Tracks file after := by
  obtain ⟨next, stepped, rfl⟩ := Option.map_eq_some_iff.mp taken
  cases event with
  | rename inst =>
    obtain ⟨fresh, notPinned⟩ := ordered
    simp only [step, Thread.renameInst] at stepped
    by_cases can : state.1.canRename inst.dests = true
    · -- an instruction that finds no free register stalls and changes nothing
      rw [if_pos can] at stepped
      obtain ⟨conserved, entries, own, history, back⟩ :=
        renameDestRegs_spec state.1 tracks.conserved notPinned stepped
      simp only [if_pos can]
      refine ⟨conserved, ?_⟩
      show UndoLog.Keeps _ _ next.historyBuffer next.renameMap _
      rw [history]
      exact tracks.keeps.record inst.seqNum entries next.renameMap fresh own back
    · rw [if_neg can] at stepped
      cases stepped
      simp only [if_neg can]
      exact tracks
  | commit n =>
    obtain ⟨_, ran, conserved, left, map, -⟩ :=
      removeFromHistory_spec n tracks.conserved tracks.keeps.newestFirst
    cases stepped.symm.trans ran
    refine ⟨conserved, ?_⟩
    show UndoLog.Keeps _ _ next.historyBuffer next.renameMap _
    rw [left, map]
    exact tracks.keeps.commit n
  | squash => exact (doSquash_spec tracks stepped).1

/-- Every physical register of a class that is renamed is in exactly one place. -/
def Once (file : RegFile) (st : Thread) : Prop :=
  ∀ c, st.vecMode.renames c = true → ∀ reg ∈ file.ids c, st.places reg = 1

/-- A squash returns to the map before the oldest instruction above its number
that is neither committed nor squashed, and leaves the map where there is none.
Where it also changes the vector renaming mode, the new mode sees that map. -/
def Restores (file : RegFile) (state : Tracked) : Prop :=
  ∀ s mode next, state.1.doSquash file s mode = some next →
    next.renameMap = inMode file state.1.vecMode mode (UndoLog.restored s state.2 state.1.renameMap)

/-- No assertion fails: instructions are renamed or wait, commits return, and so do squashes that
can switch the mode they ask for. -/
def NeverStuck (file : RegFile) (st : Thread) : Prop :=
  (∀ inst : Inst, (∀ arch ∈ inst.dests, file.Names st.vecMode arch ∧ arch.numPinnedWrites = 0) →
    ∃ next, st.renameInst file inst = some next) ∧
  (∀ n, ∃ next, st.removeFromHistory n = some next) ∧
  ∀ s mode, (∃ next, st.doSquash file s mode = some next) ↔ st.CanSwitch s mode

theorem Conserved.once (conserved : Conserved file st) : Once file st := by
  intro c renames reg mem
  obtain ⟨rfl, -⟩ := (mem_ids c reg).mp mem
  have counted := (conserved.places reg.regClass renames).count_eq reg
  rw [List.count_eq_one_of_mem (nodup_ids _) mem, List.count_append, List.count_append] at counted
  exact counted

/-- Over every run of renamed instructions, commits and squashes, each physical
register is in one place, a squash restores the map, and nothing gets stuck. -/
theorem registers_conserved_map_restored (file : RegFile) (mode : VecMode) (events : List Event)
    (state : Tracked) (ordered : Runs.Along (trackedStep file) InOrder (init file mode, []) events)
    (ran : Runs.run (trackedStep file) (init file mode, []) events = some state) :
    Once file state.1 ∧ Restores file state ∧ NeverStuck file state.1 := by
  have tracks : Tracks file state := Runs.run_invariant trackedStep_tracks _ _ events
      ⟨init_conserved mode, UndoLog.keeps_nil _⟩ ordered ran
  have newestFirst := tracks.keeps.newestFirst
  refine ⟨tracks.conserved.once, ?_, ?_, ?_, doSquash_returns_iff tracks⟩
  · exact fun s mode next squashed => (doSquash_spec tracks squashed).2
  · intro inst names
    unfold Thread.renameInst
    split
    next can =>
      exact renameDestRegs_returns inst.seqNum state.1 tracks.conserved names
        (serves_of_canRename can)
    · exact ⟨state.1, rfl⟩
  · intro n
    obtain ⟨next, removed, -⟩ := removeFromHistory_spec n tracks.conserved newestFirst
    exact ⟨next, removed⟩

/-- Two integer registers, the second of them the zero register, over four physical ones, and a
vector register over two. -/
def smallFile : RegFile where
  numRegs c := if c = .int then 2 else if c = .vec ∨ c = .vecElem then 1 else 0
  numPhysRegs c := if c = .int then 4 else if c = .vec ∨ c = .vecElem then 2 else 0
  numVecElemPerVecReg := 1
  zeroReg := 1
  elemPositive := by decide
  numRegs_vecElem := by decide
  numPhysRegs_vecElem := by decide
  enough c := by cases c <;> decide

/-- Two writers of one register, the older one committed, the younger one
squashed with a switch of the mode. -/
def twoWriters : List Event :=
  [.rename ⟨1, [⟨.int, 0, 0⟩]⟩, .rename ⟨2, [⟨.int, 0, 0⟩]⟩, .commit 1, .squash 1 .elem]

/-- The register is mapped as the older writer left it. -/
theorem registers_conserved_map_restored_twoWriters :
    ∃ state, Runs.run (trackedStep smallFile) (init smallFile .full, []) twoWriters = some state ∧
      Once smallFile state.1 ∧ Restores smallFile state ∧ NeverStuck smallFile state.1 ∧
      state.1.renameMap .int = [⟨.int, 2⟩, ⟨.int, 1⟩] := by
  obtain ⟨state, ran, map⟩ : ∃ state, Runs.run (trackedStep smallFile) (init smallFile .full, [])
      twoWriters = some state ∧ state.1.renameMap .int = [⟨.int, 2⟩, ⟨.int, 1⟩] :=
    Runs.exists_run (by decide)
  obtain ⟨once, restores, free⟩ :=
    registers_conserved_map_restored smallFile .full twoWriters state (by
      refine Runs.along_cons rfl (by decide) (Runs.along_cons rfl (by decide) ?_)
      exact Runs.along_cons rfl trivial (Runs.along_cons rfl trivial trivial)) ran
  exact ⟨state, ran, once, restores, free, map⟩

/-- A squash does not reach behind a commit: instruction 1 is the first one above
0, and its renaming stays because it was committed. -/
theorem squash_behind_commit : (Runs.run (step smallFile) (init smallFile .full)
        [.rename ⟨1, [⟨.int, 0, 0⟩]⟩, .commit 1, .squash 0 .full]).map
      (fun st => st.renameMap .int) ≠ some ((init smallFile .full).renameMap .int) := by
  decide

end RasCache.Cpu.Rename
