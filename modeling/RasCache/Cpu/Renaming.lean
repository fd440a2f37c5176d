import RasCache.Cpu.RenameMap
import RasCache.Foundation.UndoLog
import Mathlib.Data.List.Perm.Basic
import Mathlib.Data.List.Count
import Mathlib.Data.List.Nodup

/-!
# Where the physical registers are

Every physical register that is renamed at all is in one place: free, mapped,
or held by a history entry that may have to give it back. Renaming a destination
register, undoing the newest history entry and discarding the oldest one keep
this, and so do the walks made of them.
-/
namespace RasCache.Cpu.Rename

open Thread Function

variable {file : RegFile}

/-! ## Where a register can be -/

/-- The previous registers of the history entries that changed the map of the
class. -/
def prevRegs (c : RegClass) (history : List RenameHistory) : List PhysRegId :=
  (history.filter fun entry => entry.changed && decide (entry.prevPhysReg.regClass = c)).map
    RenameHistory.prevPhysReg

/-- How often the register is in one of the three places. -/
def Thread.places (st : Thread) (reg : PhysRegId) : Nat :=
  (st.freeList reg.regClass).count reg + (st.renameMap reg.regClass).count reg +
    (prevRegs reg.regClass st.historyBuffer).count reg

/-- The map before the renaming that the entry records. -/
def RenameHistory.undo (entry : RenameHistory) (map : RenameMap) : RenameMap :=
  if entry.changed then setMap entry.archReg entry.prevPhysReg map else map

/-- Each entry finds its own renaming when the newer ones are undone. -/
def Undoable : RenameMap → List RenameHistory → Prop
  | _, [] => True
  | map, entry :: older =>
    (entry.changed = true →
      (map entry.archReg.regClass)[entry.archReg.flatIndex]? = some entry.newPhysReg) ∧
    Undoable (entry.undo map) older

/-- What a history entry that changed the map says. -/
structure RenameHistory.Sound (file : RegFile) (mode : VecMode) (entry : RenameHistory) : Prop where
  newClass : entry.newPhysReg.regClass = entry.archReg.regClass
  prevClass : entry.prevPhysReg.regClass = entry.archReg.regClass
  renames : mode.renames entry.archReg.regClass = true
  notZero : file.isZeroArch entry.archReg = false

/-- The invariant of the rename stage while no destination register is pinned. -/
structure Conserved (file : RegFile) (st : Thread) : Prop where
  sizes : ∀ c, st.vecMode.renames c = true → (st.renameMap c).length = file.numRegs c
  places : ∀ c, st.vecMode.renames c = true →
    (st.freeList c ++ st.renameMap c ++ prevRegs c st.historyBuffer).Perm (file.ids c)
  idle : ∀ c, st.vecMode.renames c = false → st.freeList c = []
  undoable : Undoable st.renameMap st.historyBuffer
  sound : ∀ entry ∈ st.historyBuffer, entry.changed = true → entry.Sound file st.vecMode
  zero : file.zeroReg < file.numRegs .int →
    (st.renameMap .int)[file.zeroReg]? = some ⟨.int, file.zeroReg⟩
  unpinned : ∀ reg, st.numPinnedWrites reg = 0

@[simp] theorem prevRegs_nil (c : RegClass) : prevRegs c [] = [] := rfl

theorem prevRegs_cons (c : RegClass) (entry : RenameHistory) (older : List RenameHistory) :
    prevRegs c (entry :: older) = prevRegs c [entry] ++ prevRegs c older := by
  simp only [prevRegs, ← List.map_append, ← List.filter_append, List.singleton_append]

theorem prevRegs_append (c : RegClass) (newer older : List RenameHistory) :
    prevRegs c (newer ++ older) = prevRegs c newer ++ prevRegs c older := by
  simp only [prevRegs, List.filter_append, List.map_append]

variable {entry : RenameHistory} {c : RegClass} {arch : RegId} {st : Thread}

theorem prevRegs_unchanged (c : RegClass) (same : entry.changed = false) :
    prevRegs c [entry] = [] := by
  simp [prevRegs, same]

theorem prevRegs_changed (changed : entry.changed = true) :
    prevRegs entry.prevPhysReg.regClass [entry] = [entry.prevPhysReg] := by
  simp [prevRegs, changed]

theorem prevRegs_other (other : c ≠ entry.prevPhysReg.regClass) : prevRegs c [entry] = [] := by
  simp [prevRegs, other.symm]

theorem mem_ids (c : RegClass) (reg : PhysRegId) :
    reg ∈ file.ids c ↔ reg.regClass = c ∧ reg.index < file.numPhysRegs c := by
  simp only [RegFile.ids, List.mem_map, List.mem_range]
  constructor
  · rintro ⟨index, bound, rfl⟩
    exact ⟨rfl, bound⟩
  · rintro ⟨rfl, bound⟩
    exact ⟨reg.index, bound, rfl⟩

theorem nodup_ids (c : RegClass) : (file.ids c).Nodup := by
  refine List.Nodup.map (fun first second same => ?_) List.nodup_range
  exact congrArg PhysRegId.index same

@[simp] theorem length_ids (c : RegClass) : (file.ids c).length = file.numPhysRegs c := by
  simp [RegFile.ids]

/-- Overwriting a position of a list exchanges one member. -/
theorem perm_cons_set {α : Type} {members : List α} (position : Nat) {old : α} (new : α)
    (here : members[position]? = some old) :
    (old :: members.set position new).Perm (new :: members) := by
  induction members generalizing position with
  | nil => simp at here
  | cons first rest ih =>
    cases position with
    | zero =>
      cases here
      exact List.Perm.swap _ _ _
    | succ position =>
      have inner := ih position here
      calc old :: first :: rest.set position new
        _ |>.Perm (first :: old :: rest.set position new) := List.Perm.swap _ _ _
        _ |>.Perm (first :: new :: rest) := inner.cons first
        _ |>.Perm (new :: first :: rest) := List.Perm.swap _ _ _

theorem setMap_here (arch : RegId) (reg : PhysRegId) (map : RenameMap) :
    setMap arch reg map arch.regClass = (map arch.regClass).set arch.flatIndex reg := by
  simp [setMap]

theorem setMap_other (reg : PhysRegId) (map : RenameMap) (other : c ≠ arch.regClass) :
    setMap arch reg map c = map c := by
  simp [setMap, update_of_ne other]

theorem length_setMap (arch : RegId) (reg : PhysRegId) (map : RenameMap) (c : RegClass) :
    (setMap arch reg map c).length = (map c).length := by
  by_cases here : c = arch.regClass
  · subst here
    rw [setMap_here, List.length_set]
  · rw [setMap_other reg map here]

variable {prev reg : PhysRegId} {mode : VecMode} {next : Thread}

/-- Writing back what the map held before undoes the write. -/
theorem setMap_back (new : PhysRegId) {map : RenameMap}
    (held : (map arch.regClass)[arch.flatIndex]? = some prev) :
    setMap arch prev (setMap arch new map) = map := by
  obtain ⟨_, held⟩ := List.getElem?_eq_some_iff.mp held
  funext c
  by_cases here : c = arch.regClass
  · subst here
    rw [setMap_here, setMap_here, List.set_set, ← held, List.set_getElem_self]
  · rw [setMap_other _ _ here, setMap_other _ _ here]

/-- The zero register keeps its mapping when another one is set. -/
theorem setMap_zero (reg : PhysRegId) (map : RenameMap) (notZero : file.isZeroArch arch = false) :
    (setMap arch reg map .int)[file.zeroReg]? = (map .int)[file.zeroReg]? := by
  by_cases here : RegClass.int = arch.regClass
  · have apart : arch.flatIndex ≠ file.zeroReg := by
      intro zero
      simp [RegFile.isZeroArch, ← here, zero] at notZero
    rw [here, setMap_here, List.getElem?_set_ne apart]
  · rw [setMap_other _ _ here]

/-! ## Renaming a destination register -/

/-- What `rename` does where nothing is pinned: it leaves a special register as
it is, or maps the register to the first free one. -/
theorem rename_cases {new : PhysRegId} (unpinned : ∀ reg, st.numPinnedWrites reg = 0)
    (taken : st.rename file arch = some ((new, prev), next)) :
    (new = prev ∧ next = st) ∨
    (st.vecMode.renames arch.regClass = true ∧ file.isZeroArch arch = false ∧
      (st.renameMap arch.regClass)[arch.flatIndex]? = some prev ∧
      ∃ rest, st.freeList arch.regClass = new :: rest ∧
        next = { st with
          freeList := update st.freeList arch.regClass rest
          renameMap := setMap arch new st.renameMap
          numPinnedWrites := update st.numPinnedWrites new arch.numPinnedWrites }) := by
  unfold Thread.rename at taken
  split at taken
  · cases taken
  next found =>
    split at taken
    · cases taken
      exact .inl ⟨rfl, rfl⟩
    next notMisc =>
      split at taken
      · split at taken
        · cases taken
          exact .inl ⟨rfl, rfl⟩
        · cases taken
      next notZero =>
        -- without pinned registers a rename takes the first free one
        rw [if_neg (by simp [unpinned])] at taken
        simp only [Thread.lookup, if_neg notMisc] at found
        split at found
        next renames =>
          unfold Thread.getReg at taken
          split at taken
          · cases taken
          next got =>
            split at got
            · cases got
            next rest free =>
              cases got
              cases taken
              exact .inr ⟨renames, eq_false_of_ne_true notZero, found, rest, free, rfl⟩
        · cases found

theorem Conserved.free_ne_mapped (conserved : Conserved file st) {c : RegClass}
    (renames : st.vecMode.renames c = true) {new prev : PhysRegId} (free : new ∈ st.freeList c)
    (mapped : prev ∈ st.renameMap c) : new ≠ prev := by
  rintro rfl
  have once := (conserved.places c renames).nodup_iff.mpr (nodup_ids c)
  rw [List.append_assoc] at once
  exact List.disjoint_of_nodup_append once free (List.mem_append_left _ mapped)

theorem Conserved.regClass_of_mem (conserved : Conserved file st) (c : RegClass)
    (renames : st.vecMode.renames c = true) (reg : PhysRegId)
    (mem : reg ∈ st.freeList c ++ st.renameMap c) : reg.regClass = c := by
  have listed : reg ∈ file.ids c := (conserved.places c renames).subset (List.mem_append_left _ mem)
  exact ((mem_ids c reg).mp listed).1

/-- A rename that changes nothing is recorded all the same. -/
theorem Conserved.recorded (conserved : Conserved file st) (entry : RenameHistory)
    (same : entry.changed = false) :
    Conserved file { st with historyBuffer := entry :: st.historyBuffer } := by
  have kept : entry.undo st.renameMap = st.renameMap := by simp [RenameHistory.undo, same]
  refine { conserved with places := ?_, undoable := ?_, sound := ?_ }
  · intro c renames
    show (_ ++ prevRegs c (entry :: st.historyBuffer)).Perm _
    rw [prevRegs_cons, prevRegs_unchanged c same, List.nil_append]
    exact conserved.places c renames
  · refine ⟨fun changed => ?_, ?_⟩
    · rw [same] at changed
      cases changed
    · rw [kept]
      exact conserved.undoable
  · intro older mem changed
    rcases List.mem_cons.mp mem with rfl | mem
    · rw [same] at changed
      cases changed
    · exact conserved.sound older mem changed

/-- The first free register takes the place of the one that was mapped, which goes
to the history. -/
theorem places_replaced {rest : List PhysRegId} (c : RegClass) (changed : entry.changed = true)
    (prevClass : entry.prevPhysReg.regClass = entry.archReg.regClass)
    (held : (st.renameMap entry.archReg.regClass)[entry.archReg.flatIndex]? =
      some entry.prevPhysReg)
    (free : st.freeList entry.archReg.regClass = entry.newPhysReg :: rest) :
    (update st.freeList entry.archReg.regClass rest c ++
        setMap entry.archReg entry.newPhysReg st.renameMap c ++
        prevRegs c (entry :: st.historyBuffer)).Perm
      (st.freeList c ++ st.renameMap c ++ prevRegs c st.historyBuffer) := by
  rw [prevRegs_cons]
  by_cases here : c = entry.archReg.regClass
  · subst here
    have own := prevRegs_changed changed
    rw [prevClass] at own
    rw [update_self, setMap_here, own, free, List.perm_iff_count]
    intro reg
    have exchanged := List.perm_iff_count.mp (perm_cons_set _ entry.newPhysReg held) reg
    simp only [List.count_append, List.count_cons, List.count_nil] at exchanged ⊢
    omega
  · rw [update_of_ne here, setMap_other _ _ here,
      prevRegs_other (prevClass ▸ here), List.nil_append]

theorem Conserved.replaced (conserved : Conserved file st) (entry : RenameHistory)
    (rest : List PhysRegId) (notPinned : entry.archReg.numPinnedWrites = 0)
    (changed : entry.changed = true) (sound : entry.Sound file st.vecMode)
    (held : (st.renameMap entry.archReg.regClass)[entry.archReg.flatIndex]? =
      some entry.prevPhysReg)
    (free : st.freeList entry.archReg.regClass = entry.newPhysReg :: rest)
    (back : entry.undo (setMap entry.archReg entry.newPhysReg st.renameMap) = st.renameMap) :
    Conserved file { st with
      freeList := update st.freeList entry.archReg.regClass rest
      renameMap := setMap entry.archReg entry.newPhysReg st.renameMap
      numPinnedWrites := update st.numPinnedWrites entry.newPhysReg
        entry.archReg.numPinnedWrites
      historyBuffer := entry :: st.historyBuffer } where
  sizes c renames := by
    rw [length_setMap]
    exact conserved.sizes c renames
  places c renames :=
    (places_replaced c changed sound.prevClass held free).trans
      (conserved.places c renames)
  idle c stays := by
    -- the class that is renamed is not one that stays
    have here : c ≠ entry.archReg.regClass := by
      rintro rfl
      rw [show st.vecMode.renames _ = true from sound.renames] at stays
      cases stays
    show update st.freeList entry.archReg.regClass rest c = []
    rw [update_of_ne here]
    exact conserved.idle c stays
  undoable := by
    refine ⟨fun _ => ?_, ?_⟩
    · obtain ⟨bound, -⟩ := List.getElem?_eq_some_iff.mp held
      show (setMap entry.archReg entry.newPhysReg st.renameMap
        entry.archReg.regClass)[entry.archReg.flatIndex]? = some entry.newPhysReg
      rw [setMap_here, List.getElem?_set_self bound]
    · show Undoable (entry.undo (setMap entry.archReg entry.newPhysReg st.renameMap))
        st.historyBuffer
      rw [back]
      exact conserved.undoable
  sound older mem olderChanged := by
    rcases List.mem_cons.mp mem with rfl | mem
    · exact sound
    · exact conserved.sound older mem olderChanged
  zero bound := by
    show (setMap entry.archReg entry.newPhysReg st.renameMap .int)[file.zeroReg]? = _
    rw [setMap_zero _ _ sound.notZero]
    exact conserved.zero bound
  unpinned reg := by
    show update st.numPinnedWrites entry.newPhysReg entry.archReg.numPinnedWrites reg = 0
    by_cases here : reg = entry.newPhysReg
    · rw [here, update_self, notPinned]
    · rw [update_of_ne here]
      exact conserved.unpinned reg

theorem Conserved.renamed (conserved : Conserved file st) (seqNum : InstSeqNum) (arch : RegId)
    (notPinned : arch.numPinnedWrites = 0) (new prev : PhysRegId) (next : Thread)
    (taken : st.rename file arch = some ((new, prev), next)) :
    let entry : RenameHistory := ⟨seqNum, arch, new, prev⟩
    Conserved file { next with historyBuffer := entry :: next.historyBuffer } ∧
      next.historyBuffer = st.historyBuffer ∧ entry.undo next.renameMap = st.renameMap ∧
      next.vecMode = st.vecMode := by
  intro entry
  rcases rename_cases conserved.unpinned taken with
    ⟨rfl, rfl⟩ | ⟨renames, notZero, held, rest, free, rfl⟩
  · -- nothing is renamed: the entry is recorded with one register twice
    have same : entry.changed = false := by simp [entry, RenameHistory.changed]
    have kept : entry.undo next.renameMap = next.renameMap := by
      simp [RenameHistory.undo, same]
    exact ⟨conserved.recorded entry same, rfl, kept, rfl⟩
  · -- the first free register takes the place of the one that was mapped
    have mapped : prev ∈ st.renameMap arch.regClass := List.mem_of_getElem? held
    have isFree : new ∈ st.freeList arch.regClass := by simp [free]
    have different := conserved.free_ne_mapped renames isFree mapped
    have newClass := conserved.regClass_of_mem _ renames new (List.mem_append_left _ isFree)
    have prevClass := conserved.regClass_of_mem _ renames prev (List.mem_append_right _ mapped)
    have changed : entry.changed = true := by simpa [entry, RenameHistory.changed] using different
    have back : entry.undo (setMap arch new st.renameMap) = st.renameMap := by
      simp only [RenameHistory.undo, changed, if_true]
      exact setMap_back new held
    have sound : entry.Sound file st.vecMode := ⟨newClass, prevClass, renames, notZero⟩
    exact ⟨conserved.replaced entry rest notPinned changed sound held free back, rfl, back, rfl⟩

/-- The entries of one instruction lead back to the map before it. -/
theorem renameDestRegs_spec {seqNum : InstSeqNum} {dests : List RegId} (st : Thread)
    (conserved : Conserved file st) (notPinned : ∀ arch ∈ dests, arch.numPinnedWrites = 0)
    (ran : renameDestRegs file seqNum dests st = some next) :
    Conserved file next ∧ ∃ entries : List RenameHistory,
      (∀ entry ∈ entries, entry.instSeqNum = seqNum) ∧
      next.historyBuffer = entries ++ st.historyBuffer ∧
      UndoLog.unwind RenameHistory.undo entries next.renameMap = st.renameMap := by
  induction dests generalizing st with
  | nil =>
    cases ran
    exact ⟨conserved, [], by simp, rfl, rfl⟩
  | cons arch _ ih =>
    simp only [renameDestRegs] at ran
    split at ran
    · cases ran
    next new prev mid taken =>
      obtain ⟨kept, history, back, -⟩ := conserved.renamed seqNum arch
        (notPinned arch List.mem_cons_self) new prev mid taken
      obtain ⟨final, entries, own, left, unwound⟩ :=
        ih _ kept (fun later mem => notPinned later (List.mem_cons_of_mem _ mem)) ran
      -- the entry is older than those of the later destinations
      refine ⟨final, entries ++ [⟨seqNum, arch, new, prev⟩], ?_, ?_, ?_⟩
      · exact List.forall_mem_append.mpr ⟨own, List.forall_mem_singleton.mpr rfl⟩
      · rw [left, history, List.append_assoc, List.singleton_append]
      · rw [UndoLog.unwind_append, unwound]
        exact back

/-! ## Undoing the newest entry and discarding the oldest one -/

theorem ne_misc_of_renames (renames : mode.renames c = true) : c ≠ .misc := by
  rintro rfl
  cases mode <;> cases renames

theorem addReg_of_renames (st : Thread) (renames : mode.renames reg.regClass = true) :
    st.addReg reg = some { st with
      freeList := update st.freeList reg.regClass
        (st.freeList reg.regClass ++ [reg]) } := by
  simp only [Thread.addReg, if_neg (ne_misc_of_renames renames)]

/-- A register of a class that is renamed goes back to its free list. -/
theorem idle_addReg (conserved : Conserved file st)
    (renames : st.vecMode.renames reg.regClass = true) (c : RegClass)
    (stays : st.vecMode.renames c = false) :
    update st.freeList reg.regClass (st.freeList reg.regClass ++ [reg]) c = [] := by
  have here : c ≠ reg.regClass := by
    rintro rfl
    rw [renames] at stays
    cases stays
  rw [update_of_ne here]
  exact conserved.idle c stays

theorem undoable_append {newer older : List RenameHistory} (map : RenameMap)
    (undoable : Undoable map (newer ++ older)) : Undoable map newer := by
  induction newer generalizing map with
  | nil => trivial
  | cons _ _ ih => exact ⟨undoable.1, ih _ undoable.2⟩

/-- An entry that changed nothing can be dropped at either end. -/
theorem Conserved.dropped (conserved : Conserved file st) (kept : List RenameHistory)
    (undoable : Undoable st.renameMap kept) (sub : kept ⊆ st.historyBuffer)
    (same : ∀ c, prevRegs c kept = prevRegs c st.historyBuffer) :
    Conserved file { st with historyBuffer := kept } where
  sizes := conserved.sizes
  places := by
    intro c renames
    show (_ ++ prevRegs c kept).Perm _
    rw [same c]
    exact conserved.places c renames
  idle := conserved.idle
  undoable := undoable
  sound entry mem := conserved.sound entry (sub mem)
  zero := conserved.zero
  unpinned := conserved.unpinned

theorem Conserved.undone (conserved : Conserved file st) (entry : RenameHistory)
    (older : List RenameHistory) (history : st.historyBuffer = entry :: older) :
    ∃ next, st.undoEntry file entry = some next ∧
      Conserved file { next with historyBuffer := older } ∧
      next.renameMap = entry.undo st.renameMap ∧ next.vecMode = st.vecMode := by
  have undoable := conserved.undoable
  rw [history] at undoable
  have sub : older ⊆ st.historyBuffer := history ▸ List.subset_cons_self entry older
  cases changed : entry.changed with
  | false =>
    -- an entry that changed nothing is dropped
    have kept : entry.undo st.renameMap = st.renameMap := by simp [RenameHistory.undo, changed]
    refine ⟨st, by simp [Thread.undoEntry, changed], ?_, kept.symm, rfl⟩
    refine conserved.dropped older (kept ▸ undoable.2) sub fun c => ?_
    rw [history, prevRegs_cons, prevRegs_unchanged c changed, List.nil_append]
  | true =>
    have sound := conserved.sound entry (history ▸ List.mem_cons_self) changed
    have held := undoable.1 changed
    obtain ⟨bound, -⟩ := List.getElem?_eq_some_iff.mp held
    have undo : entry.undo st.renameMap = setMap entry.archReg entry.prevPhysReg st.renameMap := by
      simp [RenameHistory.undo, changed]
    have set : st.setEntry file entry.archReg entry.prevPhysReg = some { st with
        renameMap := setMap entry.archReg entry.prevPhysReg st.renameMap } := by
      simp only [Thread.setEntry, if_neg (ne_misc_of_renames sound.renames),
        if_pos (And.intro sound.prevClass (And.intro sound.renames bound))]
    have renames : st.vecMode.renames entry.newPhysReg.regClass = true :=
      sound.newClass ▸ sound.renames
    refine ⟨{ st with
      renameMap := setMap entry.archReg entry.prevPhysReg st.renameMap
      freeList := update st.freeList entry.newPhysReg.regClass
        (st.freeList entry.newPhysReg.regClass ++ [entry.newPhysReg]) }, ?_, ?_, undo.symm, rfl⟩
    · simp only [Thread.undoEntry, changed, if_true, set]
      rw [addReg_of_renames _ renames]
    refine ⟨?_, ?_, idle_addReg conserved renames, ?_, ?_, ?_, conserved.unpinned⟩
    · intro c renames
      rw [length_setMap]
      exact conserved.sizes c renames
    · intro c renames
      refine List.Perm.trans ?_ (conserved.places c renames)
      show (update st.freeList entry.newPhysReg.regClass _ c ++
        setMap entry.archReg entry.prevPhysReg st.renameMap c ++ prevRegs c older).Perm _
      rw [history, prevRegs_cons, sound.newClass]
      by_cases here : c = entry.archReg.regClass
      · subst here
        have own := prevRegs_changed changed
        rw [sound.prevClass] at own
        -- in the class of the register the two change places, the others stay
        rw [update_self, setMap_here, own, List.perm_iff_count]
        intro reg
        have exchanged := List.perm_iff_count.mp (perm_cons_set _ entry.prevPhysReg held) reg
        simp only [List.count_append, List.count_cons, List.count_nil] at exchanged ⊢
        omega
      · rw [update_of_ne here, setMap_other _ _ here,
          prevRegs_other (sound.prevClass ▸ here), List.nil_append]
    · exact undo ▸ undoable.2
    · exact fun older mem => conserved.sound older (sub mem)
    · intro zeroBound
      show (setMap entry.archReg entry.prevPhysReg st.renameMap .int)[file.zeroReg]? = _
      rw [setMap_zero _ _ sound.notZero]
      exact conserved.zero zeroBound

theorem Conserved.discarded (conserved : Conserved file st) (entry : RenameHistory)
    (newer : List RenameHistory) (history : st.historyBuffer = newer ++ [entry]) :
    ∃ next, (if entry.changed then st.addReg entry.prevPhysReg else some st) = some next ∧
      Conserved file { next with historyBuffer := newer } ∧
      next.renameMap = st.renameMap ∧ next.vecMode = st.vecMode := by
  -- the oldest entry is not needed to undo the newer ones
  have undoable : Undoable st.renameMap newer := undoable_append _ (history ▸ conserved.undoable)
  have sub : newer ⊆ st.historyBuffer := history ▸ List.subset_append_left newer [entry]
  cases changed : entry.changed with
  | false =>
    refine ⟨st, rfl, conserved.dropped newer undoable sub fun c => ?_, rfl, rfl⟩
    rw [history, prevRegs_append, prevRegs_unchanged c changed, List.append_nil]
  | true =>
    have sound := conserved.sound entry (by simp [history]) changed
    have renames : st.vecMode.renames entry.prevPhysReg.regClass = true :=
      sound.prevClass ▸ sound.renames
    refine ⟨_, addReg_of_renames st renames, ?_, rfl, rfl⟩
    refine ⟨conserved.sizes, ?_, idle_addReg conserved renames, undoable,
      fun older mem => conserved.sound older (sub mem), conserved.zero, conserved.unpinned⟩
    intro c renames
    refine List.Perm.trans ?_ (conserved.places c renames)
    show (update st.freeList entry.prevPhysReg.regClass _ c ++ st.renameMap c ++
      prevRegs c newer).Perm _
    rw [history, prevRegs_append]
    by_cases here : c = entry.prevPhysReg.regClass
    · subst here
      -- the register moves from the history to the free list
      rw [update_self, prevRegs_changed changed, List.perm_iff_count]
      intro _
      simp only [List.count_append]
      omega
    · rw [update_of_ne here, prevRegs_other here, List.append_nil]

/-! ## The walks over the history buffer -/

variable {history : List RenameHistory}

/-- The walk of a squash undoes exactly the entries above its number. -/
theorem squashLoop_spec (s : InstSeqNum) (st : Thread) (conserved : Conserved file st)
    (whole : st.historyBuffer = history)
    (newestFirst : history.Pairwise fun entry older => older.instSeqNum ≤ entry.instSeqNum) :
    ∃ next, squashLoop file s history st = some next ∧ Conserved file next ∧
      next.historyBuffer = history.filter (fun entry => entry.instSeqNum ≤ s) ∧
      next.renameMap = UndoLog.unwind RenameHistory.undo
        (history.filter fun entry => s < entry.instSeqNum) st.renameMap ∧
      next.vecMode = st.vecMode := by
  induction history generalizing st with
  | nil => exact ⟨st, rfl, conserved, whole, rfl, rfl⟩
  | cons entry older ih =>
    obtain ⟨first, rest⟩ := List.pairwise_cons.mp newestFirst
    by_cases young : s < entry.instSeqNum
    · obtain ⟨next, undone, kept, map, mode⟩ := conserved.undone entry older whole
      obtain ⟨last, ran, final, left, unwound, same⟩ :=
        ih { next with historyBuffer := older } kept rfl rest
      refine ⟨last, ?_, final, ?_, ?_, same.trans mode⟩
      · simp only [squashLoop, if_pos young, undone, ran]
      · simpa [Nat.not_le.mpr young] using left
      · simpa [young, map] using unwound
    · -- The newest entry is old enough, and so are all behind it.
      have old : ∀ later ∈ entry :: older, later.instSeqNum ≤ s := by
        intro later mem
        rcases List.mem_cons.mp mem with rfl | mem
        · exact Nat.not_lt.mp young
        · exact Nat.le_trans (first later mem) (Nat.not_lt.mp young)
      refine ⟨st, by simp only [squashLoop, if_neg young], conserved, ?_, ?_, rfl⟩
      · rw [whole, List.filter_eq_self.mpr fun later mem => by simpa using old later mem]
      · rw [List.filter_eq_nil_iff.mpr fun later mem => by simpa using old later mem]
        rfl

/-- The walk of a commit discards exactly the entries up to its number. -/
theorem removeLoop_spec (n : InstSeqNum) (st : Thread) (conserved : Conserved file st)
    (whole : st.historyBuffer = history.reverse)
    (oldestFirst : history.Pairwise fun entry newer => entry.instSeqNum ≤ newer.instSeqNum) :
    ∃ next, removeLoop n history st = some next ∧ Conserved file next ∧
      next.historyBuffer = (history.filter fun entry => n < entry.instSeqNum).reverse ∧
      next.renameMap = st.renameMap ∧ next.vecMode = st.vecMode := by
  induction history generalizing st with
  | nil => exact ⟨st, rfl, conserved, whole, rfl, rfl⟩
  | cons entry newer ih =>
    obtain ⟨first, rest⟩ := List.pairwise_cons.mp oldestFirst
    by_cases old : entry.instSeqNum ≤ n
    · rw [List.reverse_cons] at whole
      obtain ⟨next, freed, kept, map, mode⟩ := conserved.discarded entry newer.reverse whole
      obtain ⟨last, ran, final, left, same, sameMode⟩ :=
        ih { next with historyBuffer := newer.reverse } kept rfl rest
      refine ⟨last, ?_, final, ?_, same.trans map, sameMode.trans mode⟩
      · simp only [removeLoop, if_pos old, freed, ran]
      · simpa [Nat.not_lt.mpr old] using left
    · -- the history is in order, so the first young entry ends the loop
      have young : ∀ later ∈ entry :: newer, n < later.instSeqNum := by
        intro later mem
        rcases List.mem_cons.mp mem with rfl | mem
        · exact Nat.not_le.mp old
        · exact Nat.lt_of_lt_of_le (Nat.not_le.mp old) (first later mem)
      refine ⟨st, by simp only [removeLoop, if_neg old], conserved, ?_, rfl, rfl⟩
      rw [whole, List.filter_eq_self.mpr fun later mem => by simpa using young later mem]

theorem removeFromHistory_spec (n : InstSeqNum) (conserved : Conserved file st)
    (newestFirst : st.historyBuffer.Pairwise fun entry older =>
      older.instSeqNum ≤ entry.instSeqNum) :
    ∃ next, st.removeFromHistory n = some next ∧ Conserved file next ∧
      next.historyBuffer = st.historyBuffer.filter (fun entry => n < entry.instSeqNum) ∧
      next.renameMap = st.renameMap ∧ next.vecMode = st.vecMode := by
  have oldestFirst : st.historyBuffer.reverse.Pairwise
      fun entry newer => entry.instSeqNum ≤ newer.instSeqNum :=
        List.pairwise_reverse.mpr newestFirst
  unfold Thread.removeFromHistory
  split
  next empty =>
    have none_left := List.getLast?_eq_none_iff.mp empty
    exact ⟨st, rfl, conserved, by simp [none_left], rfl, rfl⟩
  next oldest last =>
    obtain ⟨_, history⟩ := List.getLast?_eq_some_iff.mp last
    split
    next young =>
      -- The oldest entry is younger than the commit, and so are all before it.
      refine ⟨st, rfl, conserved, ?_, rfl, rfl⟩
      symm
      rw [List.filter_eq_self]
      intro entry mem
      rw [history, List.pairwise_append] at newestFirst
      rw [history] at mem
      rcases List.mem_append.mp mem with before | here
      · have bound := newestFirst.2.2 entry before oldest (List.mem_singleton_self oldest)
        simpa using Nat.lt_of_lt_of_le young bound
      · rw [List.mem_singleton.mp here]
        simpa using young
    · obtain ⟨next, ran, kept, left, map, mode⟩ :=
        removeLoop_spec n st conserved (by simp) oldestFirst
      refine ⟨next, ran, kept, ?_, map, mode⟩
      rw [left, List.filter_reverse, List.reverse_reverse]

end RasCache.Cpu.Rename
