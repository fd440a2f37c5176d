import RasCache.Cpu.Rob

/-!
# The rename stage

Model of register renaming for one thread: the rename map
(`cpu/o3/rename_map.cc`), the free lists (`cpu/o3/free_list.hh`) and the three
walks of `DefaultRename` over its history buffer (`renameDestRegs`,
`removeFromHistory` and `doSquash` in `cpu/o3/rename_impl.hh`). Physical
registers are told apart by class and index, as the source tells them apart by
their addresses; a register of a vector element is numbered through, as its
flat index is. A failed assertion, a panic, or an access outside a map is `none`.
-/
namespace RasCache.Cpu.Rename

open Function

inductive RegClass where
  | int
  | float
  | vec
  | vecElem
  | vecPred
  | cc
  | misc
deriving Repr, DecidableEq

/-- Vector registers are renamed as a whole or one element at a time. -/
inductive VecMode where
  | full
  | elem
deriving Repr, DecidableEq

/-- Whether registers of the class are renamed in this mode. Misc registers
never are. -/
def VecMode.renames : VecMode → RegClass → Bool
  | _, .misc => false
  | .full, .vecElem => false
  | .elem, .vec => false
  | _, _ => true

/-- The numbers of architectural and physical registers of each class, as the
ISA and the parameters of the CPU fix them. The last field is what the
constructor of the CPU asserts for its one thread. -/
structure RegFile where
  numRegs : RegClass → Nat
  numPhysRegs : RegClass → Nat
  numVecElemPerVecReg : Nat
  zeroReg : Nat
  elemPositive : 0 < numVecElemPerVecReg
  numRegs_vecElem : numRegs .vecElem = numRegs .vec * numVecElemPerVecReg
  numPhysRegs_vecElem : numPhysRegs .vecElem = numPhysRegs .vec * numVecElemPerVecReg
  enough : ∀ c, numRegs c ≤ numPhysRegs c

structure PhysRegId where
  regClass : RegClass
  index : Nat
deriving Repr, DecidableEq

/-- A flattened architectural register, with the pinned writes the instruction
asks for. -/
structure RegId where
  regClass : RegClass
  flatIndex : Nat
  numPinnedWrites : Nat := 0
deriving Repr, DecidableEq

structure RenameHistory where
  instSeqNum : InstSeqNum
  archReg : RegId
  newPhysReg : PhysRegId
  prevPhysReg : PhysRegId
deriving Repr, DecidableEq

/-- The entry of the map was really changed. -/
def RenameHistory.changed (entry : RenameHistory) : Bool :=
  entry.newPhysReg != entry.prevPhysReg

/-- The map of each class, by flat architectural index. -/
abbrev RenameMap := RegClass → List PhysRegId

/-- The queue of free registers of each class. -/
abbrev FreeList := RegClass → List PhysRegId

/-- What the rename stage keeps for its thread. The newest entry of the history
buffer comes first. -/
structure Thread where
  vecMode : VecMode
  renameMap : RenameMap
  freeList : FreeList
  historyBuffer : List RenameHistory
  numPinnedWrites : PhysRegId → Nat

/-- The destination registers of an instruction, in the order of its operands. -/
structure Inst where
  seqNum : InstSeqNum
  dests : List RegId

variable (file : RegFile)

namespace RegFile

def isZeroReg (reg : PhysRegId) : Bool :=
  decide (reg.regClass = .int) && decide (reg.index = file.zeroReg)

def isZeroArch (reg : RegId) : Bool :=
  decide (reg.regClass = .int) && decide (reg.flatIndex = file.zeroReg)

/-- The physical registers of a class. -/
def ids (c : RegClass) : List PhysRegId :=
  (List.range (file.numPhysRegs c)).map fun index => ⟨c, index⟩

/-- `getRegElemIds` -/
def elemIds (reg : PhysRegId) : List PhysRegId :=
  (List.range file.numVecElemPerVecReg).map fun element =>
    ⟨.vecElem, reg.index * file.numVecElemPerVecReg + element⟩

end RegFile

/-- The state the constructor of the CPU leaves for its one thread: the first
physical registers of each class are mapped, the others are free. The vector
view that is not in use has neither a map nor free registers. -/
def init (mode : VecMode) : Thread where
  vecMode := mode
  renameMap c := if mode.renames c then (file.ids c).take (file.numRegs c) else []
  freeList c := if mode.renames c then (file.ids c).drop (file.numRegs c) else []
  historyBuffer := []
  numPinnedWrites _ := 0

namespace Thread

variable (st : Thread)

def getReg (c : RegClass) : Option (PhysRegId × Thread) :=
  match st.freeList c with
  | [] => none
  | reg :: rest => some (reg, { st with freeList := update st.freeList c rest })

def addReg (reg : PhysRegId) : Option Thread :=
  if reg.regClass = .misc then none
  else
    some { st with
      freeList := update st.freeList reg.regClass (st.freeList reg.regClass ++ [reg]) }

def lookup (arch : RegId) : Option PhysRegId :=
  if arch.regClass = .misc then
    if arch.flatIndex < file.numRegs .misc then some ⟨.misc, arch.flatIndex⟩ else none
  else if st.vecMode.renames arch.regClass then (st.renameMap arch.regClass)[arch.flatIndex]?
  else none

/-- The map of the architectural register is overwritten. -/
def setMap (arch : RegId) (reg : PhysRegId) (map : RenameMap) : RenameMap :=
  update map arch.regClass ((map arch.regClass).set arch.flatIndex reg)

def setEntry (arch : RegId) (reg : PhysRegId) : Option Thread :=
  if arch.regClass = .misc then
    if st.lookup file arch = some reg then some st else none
  else if reg.regClass = arch.regClass ∧ st.vecMode.renames arch.regClass = true ∧
      arch.flatIndex < (st.renameMap arch.regClass).length then
    some { st with renameMap := setMap arch reg st.renameMap }
  else none

/-- `UnifiedRenameMap::rename`: the new and the previous physical register. -/
def rename (arch : RegId) : Option ((PhysRegId × PhysRegId) × Thread) :=
  match st.lookup file arch with
  | none => none
  | some prev =>
    -- Misc registers are not renamed, just remapped.
    if arch.regClass = .misc then some ((prev, prev), st)
    else if file.isZeroArch arch then
      if file.isZeroReg prev then some ((prev, prev), st) else none
    else if 0 < st.numPinnedWrites prev then
      -- A pinned register is not pinned twice.
      if arch.numPinnedWrites = 0 then
        some ((prev, prev), { st with
          numPinnedWrites :=
            update st.numPinnedWrites prev (st.numPinnedWrites prev - 1) })
      else none
    else
      match st.getReg arch.regClass with
      | none => none
      | some (renamed, taken) =>
        some ((renamed, prev), { taken with
          renameMap := setMap arch renamed taken.renameMap
          numPinnedWrites := update taken.numPinnedWrites renamed arch.numPinnedWrites })

def renameDestRegs (seqNum : InstSeqNum) : List RegId → Thread → Option Thread
  | [], st => some st
  | arch :: dests, st =>
    match st.rename file arch with
    | none => none
    | some ((renamed, prev), next) =>
      renameDestRegs seqNum dests { next with
        historyBuffer := ⟨seqNum, arch, renamed, prev⟩ :: next.historyBuffer }

/-- The instruction has so many destination registers of the class. -/
def numDestRegs (c : RegClass) (dests : List RegId) : Nat :=
  dests.countP fun arch => arch.regClass = c

def canRename (dests : List RegId) : Bool :=
  [RegClass.int, .float, .vec, .vecElem, .vecPred, .cc].all fun c =>
    numDestRegs c dests ≤ (st.freeList c).length

/-- One instruction of `renameInsts`. Where the free lists are too short the
stage blocks and the instruction waits. -/
def renameInst (inst : Inst) : Option Thread :=
  if st.canRename inst.dests then renameDestRegs file inst.seqNum inst.dests st else some st

/-- The loop of `removeFromHistory` over the entries, the oldest one first. -/
def removeLoop (instSeqNum : InstSeqNum) : List RenameHistory → Thread → Option Thread
  | [], st => some st
  | entry :: newer, st =>
    if entry.instSeqNum ≤ instSeqNum then
      -- Registers that were not renamed are not freed.
      match if entry.changed then st.addReg entry.prevPhysReg else some st with
      | none => none
      | some next => removeLoop instSeqNum newer { next with historyBuffer := newer.reverse }
    else some st

def removeFromHistory (instSeqNum : InstSeqNum) : Option Thread :=
  match st.historyBuffer.getLast? with
  | none => some st
  | some oldest =>
    if instSeqNum < oldest.instSeqNum then some st
    else removeLoop instSeqNum st.historyBuffer.reverse st

/-- The renaming of one entry is undone if it was really a change. -/
def undoEntry (entry : RenameHistory) : Option Thread :=
  if entry.changed then
    match st.setEntry file entry.archReg entry.prevPhysReg with
    | none => none
    | some next => next.addReg entry.newPhysReg
  else some st

/-- The loop of `doSquash` over the entries, the newest one first. -/
def squashLoop (squashedSeqNum : InstSeqNum) : List RenameHistory → Thread → Option Thread
  | [], st => some st
  | entry :: older, st =>
    if squashedSeqNum < entry.instSeqNum then
      match st.undoEntry file entry with
      | none => none
      | some next => squashLoop squashedSeqNum older { next with historyBuffer := older }
    else some st

/-- `UnifiedRenameMap::switchMode`, called when the mode changes: every vector
is split into its elements, or the vectors are put together again in the first
physical registers. -/
def switchMode (mode : VecMode) (map : RenameMap) : RenameMap :=
  match mode with
  | .elem => update map .vecElem ((map .vec).flatMap file.elemIds)
  | .full => update map .vec ((file.ids .vec).take (file.numRegs .vec))

/-- `UnifiedRenameMap::switchFreeList` -/
def switchFreeList (mode : VecMode) (free : FreeList) : Option FreeList :=
  match mode with
  | .elem =>
    if free .vecElem ≠ [] then none
    else if (free .vec).length ≠ file.numPhysRegs .vec - file.numRegs .vec then none
    else
      some (update (update free .vecElem ((free .vec).flatMap file.elemIds))
        .vec [])
  | .full =>
    if free .vec ≠ [] then none
    else if (free .vecElem).length ≠ file.numPhysRegs .vecElem - file.numRegs .vecElem then none
    else
      some (update (update free .vec ((file.ids .vec).drop (file.numRegs .vec)))
        .vecElem [])

/-- `FullO3CPU::switchRenameMode`, with the mode that the program counter asks
for. -/
def switchRenameMode (mode : VecMode) : Option Thread :=
  if mode = st.vecMode then some st
  else
    match switchFreeList file mode st.freeList with
    | none => none
    | some free => some { st with
        vecMode := mode
        renameMap := switchMode file mode st.renameMap
        freeList := free }

def doSquash (squashedSeqNum : InstSeqNum) (mode : VecMode) : Option Thread :=
  match squashLoop file squashedSeqNum st.historyBuffer st with
  | none => none
  | some next => next.switchRenameMode file mode

end Thread

/-- What the stage does: an instruction is renamed, the commit stage reports the
youngest committed instruction, or everything younger than an instruction is
squashed. -/
inductive Event where
  | rename (inst : Inst)
  | commit (instSeqNum : InstSeqNum)
  | squash (squashedSeqNum : InstSeqNum) (mode : VecMode)

def step (st : Thread) : Event → Option Thread
  | .rename inst => st.renameInst file inst
  | .commit instSeqNum => st.removeFromHistory instSeqNum
  | .squash squashedSeqNum mode => st.doSquash file squashedSeqNum mode

end RasCache.Cpu.Rename
