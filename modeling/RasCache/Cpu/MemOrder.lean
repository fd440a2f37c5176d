import RasCache.Cpu.LoadStoreUnit

/-!
# Memory-order violations are detected

A store that executes finds the younger loads that overlap it, because the
position in the load queue it saved at dispatch keeps separating the older loads
from the younger ones, and because the scan stops early only in front of a load
that is younger than the violator recorded already.
-/
namespace RasCache.Cpu.LoadStore

open IndexedQueue LsqUnit

/-! ## Overlapping accesses -/

namespace Access

def touches (access : Access) (byte : Nat) : Prop :=
  access.effAddr ≤ byte ∧ byte < access.effAddr + access.effSize

/-- The access does not run over the end of the address space. -/
def InSpace (access : Access) : Prop := access.effAddr + access.effSize ≤ 2 ^ 64

/-- The two accesses touch one unit of the granularity of the check. -/
def Overlaps (cfg : Params) (first second : Access) : Prop :=
  ∃ byte other, first.touches byte ∧ second.touches other ∧
    byte >>> cfg.depCheckShift = other >>> cfg.depCheckShift

end Access

theorem shiftRight_mono {first second : Nat} (below : first ≤ second) (shift : Nat) :
    first >>> shift ≤ second >>> shift := by
  simp only [Nat.shiftRight_eq_div_pow]
  exact Nat.div_le_div_right below

variable {access : Access} {s : InstSeqNum} {ld : LoadInst} {byte : Nat}

theorem firstUnit_le (cfg : Params) (touched : access.touches byte) :
    firstUnit cfg access.effAddr ≤ byte >>> cfg.depCheckShift :=
  shiftRight_mono touched.1 _

theorem le_lastUnit (cfg : Params) (inSpace : access.InSpace) (touched : access.touches byte) :
    byte >>> cfg.depCheckShift ≤ lastUnit cfg access.effAddr access.effSize := by
  obtain ⟨_, _⟩ := touched
  unfold Access.InSpace at inSpace
  have last : (access.effAddr + access.effSize + (2 ^ 64 - 1)) % 2 ^ 64 =
      access.effAddr + access.effSize - 1 := by
    rw [show access.effAddr + access.effSize + (2 ^ 64 - 1) =
      (access.effAddr + access.effSize - 1) + 2 ^ 64 by omega, Nat.add_mod_right]
    exact Nat.mod_eq_of_lt (by omega)
  rw [lastUnit, last]
  exact shiftRight_mono (by omega) _

variable {cfg : Params} {inst : Access} {state : Tracked} {stores : List StoreInst}
  {store : StoreInst}

/-- The comparison finds every overlap of two accesses within the address
space. -/
theorem conflicts_of_overlaps {ld : Access} (instIn : inst.InSpace) (ldIn : ld.InSpace)
    (overlaps : inst.Overlaps cfg ld) : conflicts cfg inst ld = true := by
  obtain ⟨_, _, touched, otherTouched, _⟩ := overlaps
  have first := firstUnit_le cfg touched
  have last := le_lastUnit cfg instIn touched
  have ldFirst := firstUnit_le cfg otherTouched
  have ldLast := le_lastUnit cfg ldIn otherTouched
  simp only [conflicts, Bool.and_eq_true, decide_eq_true_eq]
  omega

/-! ## The scan -/

/-- The check looks at this load. -/
def LoadInst.Checked (cfg : Params) (inst : Access) (ld : LoadInst) : Prop :=
  ld.access.effAddrValid = true ∧ ld.access.strictlyOrdered = false ∧
    conflicts cfg inst ld.access = true

theorem checkViolations_numbers (cfg : Params) (isLoad : Bool) (inst : Access)
    (loads : List LoadInst) (violator : Option InstSeqNum) :
    (checkViolations cfg isLoad inst loads violator).1.map LoadInst.seqNum =
      loads.map LoadInst.seqNum := by
  induction loads with
  | nil => rfl
  | cons _ _ ih =>
    simp only [checkViolations]
    split
    · simp [ih]
    · split
      · split
        · split
          · rfl
          · simp [ih]
        · split <;> rfl
      · simp [ih]

/-- The violator is the one recorded before, or a load of the queue. -/
theorem checkViolations_violator (cfg : Params) (isLoad : Bool) (inst : Access)
    (loads : List LoadInst) (violator : Option InstSeqNum) :
    (checkViolations cfg isLoad inst loads violator).2 = violator ∨
      ∃ ld ∈ loads, (checkViolations cfg isLoad inst loads violator).2 = some ld.seqNum := by
  induction loads with
  | nil => exact .inl rfl
  | cons ld rest ih =>
    have behind : (checkViolations cfg isLoad inst rest violator).2 = violator ∨
        ∃ other ∈ ld :: rest,
          (checkViolations cfg isLoad inst rest violator).2 = some other.seqNum := by
      rcases ih with same | ⟨other, mem, found⟩
      · exact .inl same
      · exact .inr ⟨other, List.mem_cons_of_mem _ mem, found⟩
    simp only [checkViolations]
    -- the load is skipped, hit by an external snoop, or violated
    split
    · exact behind
    · split
      · split
        · split
          · exact .inr ⟨ld, List.mem_cons_self, rfl⟩
          · exact behind
        · split
          · exact .inl rfl
          · exact .inr ⟨ld, List.mem_cons_self, rfl⟩
      · exact behind

/-- A store does not change the loads it passes. -/
theorem checkViolations_store_loads (cfg : Params) (inst : Access) (loads : List LoadInst)
    (violator : Option InstSeqNum) : (checkViolations cfg false inst loads violator).1 = loads := by
  induction loads with
  | nil => rfl
  | cons _ _ ih =>
    simp only [checkViolations, Bool.false_eq_true, if_false]
    split
    · simp [ih]
    · split
      · split <;> rfl
      · simp [ih]

/-- The scan of a store records a violator that is no younger than any load it
has to find. -/
theorem checkViolations_detects {loads : List LoadInst} (violator : Option InstSeqNum)
    (sorted : (loads.map LoadInst.seqNum).Pairwise (· < ·)) (mem : ld ∈ loads)
    (checked : ld.Checked cfg inst) :
    ∃ recorded, (checkViolations cfg false inst loads violator).2 = some recorded ∧
      recorded ≤ ld.seqNum := by
  induction loads with
  | nil => cases mem
  | cons first rest ih =>
    rw [List.map_cons, List.pairwise_cons] at sorted
    -- The first load that is checked is the oldest one.
    have oldest : first.seqNum ≤ ld.seqNum := by
      rcases List.mem_cons.mp mem with rfl | behind
      · exact Nat.le_refl _
      · exact Nat.le_of_lt (sorted.1 _ (List.mem_map_of_mem behind))
    have skip (passed : ¬ first.Checked cfg inst) :
        ∃ recorded, (checkViolations cfg false inst rest violator).2 = some recorded ∧
          recorded ≤ ld.seqNum := by
      rcases List.mem_cons.mp mem with rfl | behind
      · exact absurd checked passed
      · exact ih sorted.2 behind
    simp only [checkViolations, Bool.false_eq_true, if_false]
    split
    next ignored =>
      refine skip fun found => ?_
      simp [found.1, found.2.1] at ignored
    next =>
      split
      next =>
        split
        next older =>
          cases violator with
          | none => cases older
          | some recorded =>
            have below : recorded < first.seqNum := by simpa using older
            exact ⟨recorded, rfl, Nat.le_trans (Nat.le_of_lt below) oldest⟩
        · exact ⟨first.seqNum, rfl, oldest⟩
      next missed => exact skip fun found => missed found.2.2

/-! ## Runs in program order -/

/-- The unit beside the number of the youngest instruction that was dispatched
and the loads that squashes have removed. -/
structure Tracked where
  unit : LsqUnit := {}
  last : InstSeqNum := 0
  removed : List InstSeqNum := []

def LsqUnit.loadNumbers (unit : LsqUnit) : List InstSeqNum :=
  unit.loadQueue.items.map LoadInst.seqNum

def Tracked.lastAfter (state : Tracked) : Event → InstSeqNum
  | .insertLoad seqNum => seqNum
  | .insertStore seqNum _ => seqNum
  | _ => state.last

def Tracked.removedAfter (state : Tracked) (next : LsqUnit) : Event → List InstSeqNum
  | .squash _ =>
    state.removed ++ state.unit.loadNumbers.filter fun seqNum => seqNum ∉ next.loadNumbers
  | _ => state.removed

def trackedStep (cfg : Params) (state : Tracked) (event : Event) : Option Tracked :=
  (step cfg state.unit event).map fun next =>
    { unit := next, last := state.lastAfter event, removed := state.removedAfter next event }

/-- What the pipeline keeps to. Instructions are dispatched in program order, a
store executes before it commits, and no squash reaches a load that is older than
a store that can write back, since such a store is committed. -/
def InOrder (state : Tracked) : Event → Prop
  | .insertLoad seqNum => state.last < seqNum
  | .insertStore seqNum _ => state.last < seqNum
  | .executeStore seqNum _ =>
    ∀ store ∈ state.unit.storeQueue, store.seqNum = seqNum → store.canWB = false
  | .squash squashedNum =>
    ∀ store ∈ state.unit.storeQueue, store.canWB = true → squashedNum < store.seqNum →
      ∀ ld ∈ state.unit.loadQueue.items, squashedNum < ld.seqNum → store.seqNum ≤ ld.seqNum
  | _ => True

instance (state : Tracked) (event : Event) : Decidable (InOrder state event) :=
  match event with
  | .insertLoad seqNum => inferInstanceAs (Decidable (state.last < seqNum))
  | .insertStore seqNum _ => inferInstanceAs (Decidable (state.last < seqNum))
  | .executeStore seqNum _ => inferInstanceAs (Decidable
      (∀ store ∈ state.unit.storeQueue, store.seqNum = seqNum → store.canWB = false))
  | .squash squashedNum => inferInstanceAs (Decidable
      (∀ store ∈ state.unit.storeQueue, store.canWB = true → squashedNum < store.seqNum →
        ∀ ld ∈ state.unit.loadQueue.items, squashedNum < ld.seqNum → store.seqNum ≤ ld.seqNum))
  | .executeLoad _ _ _ | .externalSnoop _ | .commit _ | .completeStore | .getMemDepViolator =>
    inferInstanceAs (Decidable True)

/-- The invariant of such a run. -/
structure Ordered (state : Tracked) : Prop where
  loadsSorted : state.unit.loadNumbers.Pairwise (· < ·)
  storesSorted : (state.unit.storeQueue.map StoreInst.seqNum).Pairwise (· < ·)
  loadsSeen : ∀ seqNum ∈ state.unit.loadNumbers, seqNum ≤ state.last
  storesSeen : ∀ store ∈ state.unit.storeQueue, store.seqNum ≤ state.last
  separates : ∀ store ∈ state.unit.storeQueue,
    Separates LoadInst.seqNum state.unit.loadQueue store.lqIt store.seqNum
  ahead : ∀ store ∈ state.unit.storeQueue, store.canWB = false →
    state.unit.loadQueue.head ≤ store.lqIt
  removedSeen : ∀ seqNum ∈ state.removed, seqNum ≤ state.last
  present : ∀ seqNum ∈ state.unit.loadNumbers, seqNum ∉ state.removed
  violator : ∀ seqNum, state.unit.memDepViolator = some seqNum → seqNum ∉ state.removed

theorem ordered_init : Ordered {} := by
  constructor <;> simp [LsqUnit.loadNumbers]

/-- An operation that keeps the loads in their places and the stores what they
are, and records no other violator than a load of the queue. -/
theorem Ordered.updated (ordered : Ordered state) (unit : LsqUnit)
    (head : unit.loadQueue.head = state.unit.loadQueue.head)
    (numbers : unit.loadNumbers = state.unit.loadNumbers) (mark : StoreInst → StoreInst)
    (stores : unit.storeQueue = state.unit.storeQueue.map mark)
    (keeps : ∀ store, (mark store).seqNum = store.seqNum ∧ (mark store).lqIt = store.lqIt ∧
      ((mark store).canWB = false → store.canWB = false))
    (violator : ∀ seqNum, unit.memDepViolator = some seqNum →
      state.unit.memDepViolator = some seqNum ∨ seqNum ∈ state.unit.loadNumbers) :
    Ordered { state with unit := unit } where
  loadsSorted := by
    show unit.loadNumbers.Pairwise _
    rw [numbers]
    exact ordered.loadsSorted
  storesSorted := by
    show (unit.storeQueue.map StoreInst.seqNum).Pairwise _
    -- a mark leaves the number and the position in the load queue
    have same : StoreInst.seqNum ∘ mark = StoreInst.seqNum := funext fun store => (keeps store).1
    rw [stores, List.map_map, same]
    exact ordered.storesSorted
  loadsSeen := by
    intro seqNum mem
    exact ordered.loadsSeen seqNum (numbers ▸ mem)
  storesSeen := by
    intro _ mem
    obtain ⟨original, present, rfl⟩ := List.mem_map.mp (stores ▸ mem)
    rw [(keeps original).1]
    exact ordered.storesSeen original present
  separates := by
    intro _ mem
    obtain ⟨original, present, rfl⟩ := List.mem_map.mp (stores ▸ mem)
    rw [(keeps original).1, (keeps original).2.1]
    exact (ordered.separates original present).of_numbers head numbers
  ahead := by
    intro _ mem waits
    obtain ⟨original, present, rfl⟩ := List.mem_map.mp (stores ▸ mem)
    rw [(keeps original).2.1]
    exact head ▸ ordered.ahead original present ((keeps original).2.2 waits)
  removedSeen := ordered.removedSeen
  present := by
    intro seqNum mem
    exact ordered.present seqNum (numbers ▸ mem)
  violator := by
    intro seqNum recorded
    rcases violator seqNum recorded with before | mem
    · exact ordered.violator seqNum before
    · exact ordered.present seqNum mem

/-- The check keeps the loads in their places and records a load of the queue. -/
theorem checkFrom_spec {unit next : LsqUnit} {isLoad : Bool} {loadIt : Nat}
    (ran : unit.checkFrom cfg isLoad inst loadIt = some next) :
    next.loadQueue.head = unit.loadQueue.head ∧ next.loadNumbers = unit.loadNumbers ∧
      next.storeQueue = unit.storeQueue ∧ ∀ seqNum, next.memDepViolator = some seqNum →
        unit.memDepViolator = some seqNum ∨ seqNum ∈ unit.loadNumbers := by
  unfold LsqUnit.checkFrom at ran
  split at ran
  · cases ran
  next rest found =>
    cases ran
    -- the walk starts at a position of the queue, so it sees its loads only
    have behind : rest = unit.loadQueue.items.drop (loadIt - unit.loadQueue.head) := by
      unfold Queue.fromIndex at found
      split at found
      · exact (Option.some.inj found).symm
      · cases found
    refine ⟨rfl, ?_, rfl, ?_⟩
    · simp only [LsqUnit.loadNumbers, List.map_append, checkViolations_numbers]
      rw [behind, ← List.map_append, List.take_append_drop]
    · intro seqNum recorded
      rcases checkViolations_violator cfg isLoad inst rest unit.memDepViolator with
        same | ⟨ld, mem, found⟩
      · exact .inl (same.symm.trans recorded)
      · have equal : ld.seqNum = seqNum := Option.some.inj (found.symm.trans recorded)
        have listed : ld ∈ unit.loadQueue.items := List.mem_of_mem_drop (behind ▸ mem)
        exact .inr (equal ▸ List.mem_map_of_mem listed)

theorem map_numbers (loads : List LoadInst) {update : LoadInst → LoadInst}
    (keeps : ∀ ld, (update ld).seqNum = ld.seqNum) :
    (loads.map update).map LoadInst.seqNum = loads.map LoadInst.seqNum := by
  rw [List.map_map]
  exact List.map_congr_left fun ld _ => keeps ld

theorem setAccess_seqNum (seqNum : InstSeqNum) (access : Access) (ld : LoadInst) :
    (setAccess seqNum access ld).seqNum = ld.seqNum := by
  unfold setAccess
  split <;> rfl

theorem hitLoad_seqNum (seqNum : InstSeqNum) (ld : LoadInst) :
    (hitLoad seqNum ld).seqNum = ld.seqNum := by
  unfold hitLoad
  split <;> rfl

theorem markExecuted_keeps (seqNum : InstSeqNum) (store : StoreInst) :
    (markExecuted seqNum store).seqNum = store.seqNum ∧
      (markExecuted seqNum store).lqIt = store.lqIt ∧
      ((markExecuted seqNum store).canWB = false → store.canWB = false) := by
  unfold markExecuted
  split
  · exact ⟨rfl, rfl, fun marked => absurd marked (by simp)⟩
  · exact ⟨rfl, rfl, id⟩

section

variable (ordered : Ordered state)
include ordered

theorem Ordered.executeLoad (cfg : Params) (seqNum : InstSeqNum) (access : Access)
    (completes : Bool) (next : LsqUnit)
    (ran : state.unit.executeLoad cfg seqNum access completes = some next) :
    Ordered { state with unit := next } := by
  unfold LsqUnit.executeLoad at ran
  split at ran
  · cases ran
  next =>
    have numbers := map_numbers state.unit.loadQueue.items (setAccess_seqNum seqNum access)
    split at ran
    next =>
      obtain ⟨head, same, stores, violator⟩ := checkFrom_spec ran
      refine ordered.updated next head (same.trans numbers) id (by rw [stores, List.map_id])
        (fun store => ⟨rfl, rfl, fun waits => waits⟩) fun number recorded => ?_
      rcases violator number recorded with before | mem
      · exact .inl before
      · exact .inr (by rw [LsqUnit.loadNumbers, ← numbers]; exact mem)
    · cases ran
      exact ordered.updated _ rfl numbers id (List.map_id _).symm
        (fun store => ⟨rfl, rfl, fun waits => waits⟩) fun number recorded => .inl recorded

theorem Ordered.executeStore (cfg : Params) (seqNum : InstSeqNum) (outcome : StoreOutcome)
    (next : LsqUnit) (ran : state.unit.executeStore cfg seqNum outcome = some next) :
    Ordered { state with unit := next } := by
  unfold LsqUnit.executeStore at ran
  split at ran
  · cases ran
  next =>
    split at ran
    · cases ran
      exact ordered
    split at ran
    · cases ran
      exact ordered
    split at ran
    · cases ran
      exact ordered
    split at ran
    · cases ran
    obtain ⟨head, same, stores, violator⟩ := checkFrom_spec ran
    exact ordered.updated next head same (markExecuted seqNum) stores (markExecuted_keeps seqNum)
      violator

/-! ## Entries that come and go -/

theorem Ordered.insertLoad (seqNum : InstSeqNum) (new : state.last < seqNum) :
    Ordered { state with
      unit := { state.unit with loadQueue := state.unit.loadQueue.push { seqNum := seqNum } }
      last := seqNum } := by
  have numbers : LsqUnit.loadNumbers { state.unit with
      loadQueue := state.unit.loadQueue.push { seqNum := seqNum } } =
      state.unit.loadNumbers ++ [seqNum] := by
    simp [LsqUnit.loadNumbers, Queue.push]
  -- numbers are handed out in order, so the new load is the youngest and was never removed
  have older : ∀ number ∈ state.unit.loadNumbers, number < seqNum :=
    fun number mem => Nat.lt_of_le_of_lt (ordered.loadsSeen number mem) new
  have unused : seqNum ∉ state.removed :=
    fun mem => Nat.not_le.mpr new (ordered.removedSeen seqNum mem)
  constructor
  · show (LsqUnit.loadNumbers _).Pairwise _
    rw [numbers, List.pairwise_append]
    refine ⟨ordered.loadsSorted, List.pairwise_singleton _ _, fun number mem other here => ?_⟩
    rw [List.mem_singleton.mp here]
    exact older number mem
  · exact ordered.storesSorted
  · rw [numbers, List.forall_mem_append, List.forall_mem_singleton]
    exact ⟨fun number before => Nat.le_of_lt (older number before), Nat.le_refl _⟩
  · exact fun store mem => Nat.le_trans (ordered.storesSeen store mem) (Nat.le_of_lt new)
  · -- a store that is there is older than the load
    intro store mem
    have younger := Nat.le_trans (ordered.storesSeen store mem) (Nat.le_of_lt new)
    exact (ordered.separates store mem).push _ younger
  · exact ordered.ahead
  · exact fun number mem => Nat.le_trans (ordered.removedSeen number mem) (Nat.le_of_lt new)
  · rw [numbers, List.forall_mem_append, List.forall_mem_singleton]
    exact ⟨ordered.present, unused⟩
  · exact ordered.violator

/-- A store saves the end of the load queue. -/
theorem Ordered.insertStore (seqNum : InstSeqNum) (writesAtExecute : Bool)
    (new : state.last < seqNum) :
    Ordered { state with
      unit := { state.unit with
        storeQueue := state.unit.storeQueue ++
          [{ seqNum := seqNum, lqIt := state.unit.loadQueue.finish
             writesAtExecute := writesAtExecute }] }
      last := seqNum } := by
  have weaken {number : InstSeqNum} (seen : number ≤ state.last) : number ≤ seqNum :=
    Nat.le_trans seen (Nat.le_of_lt new)
  constructor
  · exact ordered.loadsSorted
  · show ((state.unit.storeQueue ++ [_]).map StoreInst.seqNum).Pairwise _
    rw [List.map_append, List.pairwise_append]
    refine ⟨ordered.storesSorted, List.pairwise_singleton _ _, fun number mem other here => ?_⟩
    obtain ⟨store, present, rfl⟩ := List.mem_map.mp mem
    rw [List.mem_singleton.mp here]
    exact Nat.lt_of_le_of_lt (ordered.storesSeen store present) new
  · exact fun number mem => weaken (ordered.loadsSeen number mem)
  · exact List.forall_mem_append.mpr ⟨fun store before => weaken (ordered.storesSeen store before),
      List.forall_mem_singleton.mpr (Nat.le_refl _)⟩
  · -- the new store has every load of the queue before it
    refine List.forall_mem_append.mpr ⟨ordered.separates, List.forall_mem_singleton.mpr ?_⟩
    refine separates_finish fun ld present => ?_
    exact Nat.lt_of_le_of_lt (ordered.loadsSeen _ (List.mem_map_of_mem present)) new
  · exact List.forall_mem_append.mpr
      ⟨ordered.ahead, List.forall_mem_singleton.mpr fun _ => Nat.le_add_right _ _⟩
  · exact fun number mem => weaken (ordered.removedSeen number mem)
  · exact ordered.present
  · exact ordered.violator

end

/-- `commitStores` marks stores and nothing else, and a store it leaves unmarked
is younger than the commit. -/
theorem commitStores_spec (n : InstSeqNum)
    (sorted : (stores.map StoreInst.seqNum).Pairwise (· < ·)) :
    (commitStores n stores).map StoreInst.seqNum = stores.map StoreInst.seqNum ∧
      ∀ store ∈ commitStores n stores, ∃ original ∈ stores,
        store.seqNum = original.seqNum ∧ store.lqIt = original.lqIt ∧
        (store.canWB = false → original.canWB = false ∧ n < store.seqNum) := by
  induction stores with
  | nil => exact ⟨rfl, by simp [commitStores]⟩
  | cons first rest ih =>
    rw [List.map_cons, List.pairwise_cons] at sorted
    obtain ⟨same, marked⟩ := ih sorted.2
    have behind : ∀ store ∈ commitStores n rest, ∃ original ∈ first :: rest,
        store.seqNum = original.seqNum ∧ store.lqIt = original.lqIt ∧
        (store.canWB = false → original.canWB = false ∧ n < store.seqNum) := by
      intro store mem
      obtain ⟨original, present, known⟩ := marked store mem
      exact ⟨original, List.mem_cons_of_mem _ present, known⟩
    simp only [commitStores]
    split
    next done =>
      refine ⟨by simp [same], fun store mem => ?_⟩
      rcases List.mem_cons.mp mem with rfl | mem
      · exact ⟨store, List.mem_cons_self, rfl, rfl, fun waits => by rw [done] at waits; cases waits⟩
      · exact behind store mem
    next =>
      split
      next young =>
        -- The loop stops here; all stores behind are younger still.
        refine ⟨rfl, fun store mem => ⟨store, mem, rfl, rfl, fun waits => ⟨waits, ?_⟩⟩⟩
        rcases List.mem_cons.mp mem with rfl | mem
        · exact young
        · exact Nat.lt_trans young (sorted.1 _ (List.mem_map_of_mem mem))
      · refine ⟨by simp [same], fun store mem => ?_⟩
        rcases List.mem_cons.mp mem with rfl | mem
        · exact ⟨first, List.mem_cons_self, rfl, rfl, fun waits => by cases waits⟩
        · exact behind store mem

/-- Loads that leave at the front are older than every store that waits. -/
theorem head_le_of_popFront {queue : Queue LoadInst} {n : InstSeqNum}
    (separates : Separates LoadInst.seqNum queue store.lqIt store.seqNum)
    (ahead : queue.head ≤ store.lqIt) (young : n < store.seqNum) :
    (queue.popFrontWhile fun ld => decide (ld.seqNum ≤ n)).head ≤ store.lqIt := by
  obtain ⟨head, items⟩ := queue
  simp only [Queue.popFrontWhile] at ahead ⊢
  generalize gone : items.takeWhile (fun ld => decide (ld.seqNum ≤ n)) = left
  rcases List.eq_nil_or_concat left with rfl | ⟨before, last, rfl⟩
  · simpa using ahead
  · -- The last load that leaves is older than the store, so its index is in front.
    have leaves : last.seqNum ≤ n := by
      have mem : last ∈ items.takeWhile (fun ld => decide (ld.seqNum ≤ n)) := by simp [gone]
      simpa using List.mem_takeWhile_imp mem
    have place : items[before.length]? = some last := by
      have split := List.takeWhile_append_dropWhile
        (p := fun ld : LoadInst => decide (ld.seqNum ≤ n))
        (l := items)
      rw [gone] at split
      rw [← split]
      simp
    have front : head + before.length < store.lqIt :=
      (separates.older _ _ place).mp (Nat.lt_of_le_of_lt leaves young)
    rw [List.length_concat]
    omega

theorem Ordered.commit (ordered : Ordered state) (n : InstSeqNum) :
    Ordered { state with unit := state.unit.commit n } := by
  obtain ⟨same, marked⟩ := commitStores_spec n ordered.storesSorted
  have kept : List.Sublist (state.unit.commit n).loadNumbers state.unit.loadNumbers :=
    (List.dropWhile_sublist _).map _
  constructor
  · exact ordered.loadsSorted.sublist kept
  · show ((commitStores n state.unit.storeQueue).map StoreInst.seqNum).Pairwise _
    rw [same]
    exact ordered.storesSorted
  · exact fun number mem => ordered.loadsSeen number (kept.subset mem)
  · intro store mem
    obtain ⟨original, present, number, -⟩ := marked store mem
    exact number ▸ ordered.storesSeen original present
  · intro store mem
    obtain ⟨original, present, number, position, -⟩ := marked store mem
    rw [number, position]
    exact (ordered.separates original present).popFrontWhile _
  · -- a store that waits for its commit is younger than the loads that leave
    intro store mem waits
    obtain ⟨original, present, number, position, waiting⟩ := marked store mem
    obtain ⟨before, young⟩ := waiting waits
    rw [position]
    exact head_le_of_popFront (ordered.separates original present)
      (ordered.ahead original present before) (number ▸ young)
  · exact ordered.removedSeen
  · exact fun number mem => ordered.present number (kept.subset mem)
  · exact ordered.violator

theorem Ordered.completeStore (ordered : Ordered state) (next : LsqUnit)
    (ran : state.unit.completeStore = some next) : Ordered { state with unit := next } := by
  unfold LsqUnit.completeStore at ran
  split at ran
  · cases ran
  next first rest stores =>
    split at ran
    · cases ran
      have kept : List.Sublist rest state.unit.storeQueue :=
        stores ▸ List.sublist_cons_self first rest
      exact { ordered with
        storesSorted := ordered.storesSorted.sublist (kept.map _)
        storesSeen := fun store mem => ordered.storesSeen store (kept.subset mem)
        separates := fun store mem => ordered.separates store (kept.subset mem)
        ahead := fun store mem => ordered.ahead store (kept.subset mem) }
    · cases ran

theorem mem_rdropWhile {α : Type} {leaves : α → Bool} {items : List α} {entry : α}
    (mem : entry ∈ items) (stays : leaves entry = false) : entry ∈ items.rdropWhile leaves := by
  induction items using List.reverseRecOn with
  | nil => cases mem
  | append_singleton items last ih =>
    by_cases left : leaves last = true
    · rw [List.rdropWhile_concat_pos leaves items last left]
      rcases List.mem_append.mp mem with before | here
      · exact ih before
      · rw [List.mem_singleton.mp here, left] at stays
        cases stays
    · rw [List.rdropWhile_concat_neg leaves items last left]
      exact mem

/-- What is left at a squash: the store is old enough, or it can write back, or
a store behind it can. -/
theorem rdropWhile_left (sorted : (stores.map StoreInst.seqNum).Pairwise (· < ·))
    (mem : store ∈ stores.rdropWhile fun store => decide (s < store.seqNum) && !store.canWB) :
    store.seqNum ≤ s ∨ store.canWB = true ∨
      ∃ other ∈ stores, other.canWB = true ∧ s < other.seqNum ∧ store.seqNum < other.seqNum := by
  induction stores using List.reverseRecOn with
  | nil => simp at mem
  | append_singleton stores last ih =>
    rw [List.map_append, List.pairwise_append] at sorted
    by_cases leaves : (decide (s < last.seqNum) && !last.canWB) = true
    · rw [List.rdropWhile_concat_pos _ stores last leaves] at mem
      rcases ih sorted.1 mem with old | done | ⟨other, present, known⟩
      · exact .inl old
      · exact .inr (.inl done)
      · exact .inr (.inr ⟨other, List.mem_append_left _ present, known⟩)
    · rw [List.rdropWhile_concat_neg _ stores last leaves] at mem
      -- The last store stays, so nothing in front of it is looked at.
      rcases List.mem_append.mp mem with before | here
      · have behind : store.seqNum < last.seqNum :=
          sorted.2.2 _ (List.mem_map_of_mem before) _ (by simp)
        by_cases young : s < last.seqNum
        · have done : last.canWB = true := by simpa [young] using leaves
          exact .inr (.inr ⟨last, by simp, done, young, behind⟩)
        · exact .inl (Nat.le_of_lt (Nat.lt_of_lt_of_le behind (Nat.not_lt.mp young)))
      · rw [List.mem_singleton.mp here]
        by_cases young : s < last.seqNum
        · exact .inr (.inl (by simpa [young] using leaves))
        · exact .inl (Nat.not_lt.mp young)

/-- A store that stays at a squash keeps the loads in front of its position. -/
theorem squash_younger (ordered : Ordered state) (inOrder : InOrder state (.squash s))
    (mem : store ∈ (state.unit.squash s).storeQueue) (present : ld ∈ state.unit.loadQueue.items)
    (leaves : s < ld.seqNum) : store.seqNum ≤ ld.seqNum := by
  have listed : store ∈ state.unit.storeQueue := (List.rdropWhile_prefix _ _).subset mem
  have able (other : StoreInst) (otherListed : other ∈ state.unit.storeQueue)
      (done : other.canWB = true) (young : s < other.seqNum) : other.seqNum ≤ ld.seqNum :=
    inOrder other otherListed done young ld present leaves
  rcases rdropWhile_left ordered.storesSorted mem with
    old | done | ⟨other, otherListed, done, young, behind⟩
  · exact Nat.le_trans old (Nat.le_of_lt leaves)
  · by_cases young : s < store.seqNum
    · exact able store listed done young
    · exact Nat.le_trans (Nat.not_lt.mp young) (Nat.le_of_lt leaves)
  · exact Nat.le_trans (Nat.le_of_lt behind) (able other otherListed done young)

theorem Ordered.squash (ordered : Ordered state) (s : InstSeqNum)
    (inOrder : InOrder state (.squash s)) :
    Ordered { state with
      unit := state.unit.squash s
      removed := state.removedAfter (state.unit.squash s) (.squash s) } := by
  have kept : List.Sublist (state.unit.squash s).loadNumbers state.unit.loadNumbers :=
    (List.rdropWhile_prefix _ _).sublist.map _
  have keptStores : List.Sublist (state.unit.squash s).storeQueue state.unit.storeQueue :=
    (List.rdropWhile_prefix _ _).sublist
  have young : ∀ number ∈ state.unit.loadNumbers, number ∉ (state.unit.squash s).loadNumbers →
      s < number := by
    intro _ mem gone
    obtain ⟨_, present, rfl⟩ := List.mem_map.mp mem
    by_contra old
    refine gone (List.mem_map_of_mem (mem_rdropWhile present ?_))
    simpa using Nat.not_lt.mp old
  constructor
  · exact ordered.loadsSorted.sublist kept
  · exact ordered.storesSorted.sublist (keptStores.map _)
  · exact fun number mem => ordered.loadsSeen number (kept.subset mem)
  · exact fun store mem => ordered.storesSeen store (keptStores.subset mem)
  · intro store mem
    refine (ordered.separates store (keptStores.subset mem)).popBackWhile _
      fun ld present leaves => ?_
    exact squash_younger ordered inOrder mem present (by simpa using leaves)
  · exact fun store mem => ordered.ahead store (keptStores.subset mem)
  · exact List.forall_mem_append.mpr ⟨ordered.removedSeen,
      fun number here => ordered.loadsSeen number (List.mem_filter.mp here).1⟩
  · intro number mem removed
    rcases List.mem_append.mp removed with before | here
    · exact ordered.present number (kept.subset mem) before
    · have gone := (List.mem_filter.mp here).2
      simp [mem] at gone
  · intro number recorded removed
    simp only [LsqUnit.squash] at recorded
    split at recorded
    · cases recorded
    next old =>
      -- A violator that stays is not above the squash.
      rw [recorded] at old
      rcases List.mem_append.mp removed with before | here
      · exact ordered.violator number recorded before
      · obtain ⟨mem, gone⟩ := List.mem_filter.mp here
        have above := young number mem (by simpa using gone)
        simp [above] at old

theorem trackedStep_ordered (cfg : Params) (state : Tracked) (event : Event) (after : Tracked)
    (ordered : Ordered state) (inOrder : InOrder state event)
    (taken : trackedStep cfg state event = some after) : Ordered after := by
  obtain ⟨next, stepped, rfl⟩ := Option.map_eq_some_iff.mp taken
  cases event with
  | insertLoad seqNum =>
    simp only [step, LsqUnit.insertLoad] at stepped
    split at stepped
    · cases stepped
    · cases stepped
      exact ordered.insertLoad seqNum inOrder
  | insertStore seqNum writesAtExecute =>
    simp only [step, LsqUnit.insertStore] at stepped
    split at stepped
    · cases stepped
    · cases stepped
      exact ordered.insertStore seqNum writesAtExecute inOrder
  | executeLoad seqNum access completes =>
    exact ordered.executeLoad cfg seqNum access completes next stepped
  | executeStore seqNum outcome => exact ordered.executeStore cfg seqNum outcome next stepped
  | externalSnoop seqNum =>
    cases stepped
    -- a snoop marks loads and moves nothing
    exact ordered.updated _ rfl (map_numbers _ (hitLoad_seqNum seqNum)) id (List.map_id _).symm
      (fun store => ⟨rfl, rfl, fun waits => waits⟩) fun number recorded => .inl recorded
  | commit n =>
    cases stepped
    exact ordered.commit n
  | completeStore => exact ordered.completeStore next stepped
  | squash s =>
    cases stepped
    exact ordered.squash s inOrder
  | getMemDepViolator =>
    cases stepped
    exact ordered.updated _ rfl rfl id (List.map_id _).symm
      (fun store => ⟨rfl, rfl, fun waits => waits⟩) fun number recorded => by cases recorded

/-! ## What every run keeps -/

/-- The store executes: it is translated, not predicated false, without a fault,
and its range is not empty and within the address space. -/
structure Executes (outcome : StoreOutcome) : Prop where
  translated : outcome.translationDelayed = false
  noFault : outcome.fault = false
  predicate : outcome.predicate = true
  nonempty : 0 < outcome.effSize
  inSpace : outcome.access.InSpace

/-- A younger load of the queue with a valid address that is not strictly ordered
and overlaps the store. -/
structure LoadInst.Passed (cfg : Params) (seqNum : InstSeqNum) (outcome : StoreOutcome)
    (ld : LoadInst) : Prop where
  younger : seqNum < ld.seqNum
  valid : ld.access.effAddrValid = true
  inSpace : ld.access.InSpace
  notOrdered : ld.access.strictlyOrdered = false
  overlaps : outcome.access.Overlaps cfg ld.access

/-- Every such load is covered by a violator that is no younger. -/
def Detected (cfg : Params) (unit : LsqUnit) (seqNum : InstSeqNum) (outcome : StoreOutcome) :
    Prop :=
  ∀ ld ∈ unit.loadQueue.items, ld.Passed cfg seqNum outcome →
    ∃ recorded, unit.memDepViolator = some recorded ∧ recorded ≤ ld.seqNum

/-- A store is found by its number: no other store has it. -/
theorem find?_seqNum (sorted : (stores.map StoreInst.seqNum).Pairwise (· < ·))
    (mem : store ∈ stores) :
    stores.find? (fun other => decide (other.seqNum = store.seqNum)) = some store := by
  induction stores with
  | nil => cases mem
  | cons _ _ ih =>
    rw [List.map_cons, List.pairwise_cons] at sorted
    rcases List.mem_cons.mp mem with rfl | behind
    · simp
    · have older := sorted.1 _ (List.mem_map_of_mem behind)
      rw [List.find?_cons_of_neg (by simpa using Nat.ne_of_lt older)]
      exact ih sorted.2 behind

theorem executeStore_detects (ordered : Ordered state) (cfg : Params)
    (listed : store ∈ state.unit.storeQueue) (waits : store.canWB = false)
    {outcome : StoreOutcome} (executes : Executes outcome) :
    ∃ next, state.unit.executeStore cfg store.seqNum outcome = some next ∧
      Detected cfg next store.seqNum outcome := by
  obtain ⟨rest, position, behind, suffix⟩ :=
    (ordered.separates store listed).fromIndex (ordered.ahead store listed waits)
  have found := find?_seqNum ordered.storesSorted listed
  have nonempty : outcome.effSize ≠ 0 := Nat.pos_iff_ne_zero.mp executes.nonempty
  refine ⟨{ state.unit with
    storeQueue := state.unit.storeQueue.map (markExecuted store.seqNum)
    loadQueue := { state.unit.loadQueue with
      items := state.unit.loadQueue.items.take (store.lqIt - state.unit.loadQueue.head) ++
        (checkViolations cfg false outcome.access rest state.unit.memDepViolator).1 }
    memDepViolator :=
      (checkViolations cfg false outcome.access rest state.unit.memDepViolator).2 }, ?_, ?_⟩
  · simp only [LsqUnit.executeStore, found, executes.translated, executes.noFault,
      executes.predicate, nonempty, LsqUnit.checkFrom, position, Bool.false_and, Bool.not_true,
      Bool.false_eq_true, if_false]
  · intro ld mem passed
    -- A store leaves the loads as they are.
    have present : ld ∈ state.unit.loadQueue.items := by
      rw [checkViolations_store_loads] at mem
      rcases List.mem_append.mp mem with before | after
      · exact List.mem_of_mem_take before
      · exact suffix.subset after
    have checked : ld.Checked cfg outcome.access :=
      ⟨passed.valid, passed.notOrdered, conflicts_of_overlaps executes.inSpace
        passed.inSpace passed.overlaps⟩
    exact checkViolations_detects _ (ordered.loadsSorted.sublist (suffix.sublist.map _))
      (behind ld present (Nat.le_of_lt passed.younger)) checked

/-- The promises of the unit in a state. -/
structure Sound (cfg : Params) (state : Tracked) : Prop where
  separates : ∀ store ∈ state.unit.storeQueue,
    Separates LoadInst.seqNum state.unit.loadQueue store.lqIt store.seqNum
  notRemoved : ∀ seqNum, state.unit.memDepViolator = some seqNum → seqNum ∉ state.removed
  detects : ∀ store ∈ state.unit.storeQueue, ∀ outcome,
    InOrder state (.executeStore store.seqNum outcome) → Executes outcome →
      ∃ next, step cfg state.unit (.executeStore store.seqNum outcome) = some next ∧
        Detected cfg next store.seqNum outcome

theorem Ordered.sound (ordered : Ordered state) (cfg : Params) :
    Sound cfg state where
  separates := ordered.separates
  notRemoved := ordered.violator
  detects := by
    intro store listed _ inOrder executes
    have waits := inOrder store listed rfl
    exact executeStore_detects ordered cfg listed waits executes

/-- Over every run in program order the saved positions separate the older loads
from the younger ones, the violator is not a squashed load, and a store that
executes finds the loads that passed it. -/
theorem violations_detected (cfg : Params) (events : List Event) (state : Tracked)
    (inOrder : Runs.Along (trackedStep cfg) InOrder {} events)
    (ran : Runs.run (trackedStep cfg) {} events = some state) : Sound cfg state :=
  (Runs.run_invariant (trackedStep_ordered cfg) {} state events ordered_init inOrder ran).sound
    cfg

/-- A load that executes before an older store to the same bytes. -/
def earlyLoad : List Event :=
  [.insertLoad 1, .insertStore 2 false, .insertLoad 3,
    .executeLoad 3 { effAddrValid := true, effAddr := 16, effSize := 4 } true, .commit 1,
    .executeStore 2 { effAddr := 18, effSize := 8 }]

theorem violations_detected_earlyLoad :
    ∃ state, Runs.run (trackedStep ⟨4, 4, 0, true⟩) {} earlyLoad = some state ∧
      state.unit.memDepViolator = some 3 ∧ Sound ⟨4, 4, 0, true⟩ state := by
  refine ⟨_, rfl, rfl, violations_detected ⟨4, 4, 0, true⟩ earlyLoad _ ?_ rfl⟩
  refine Runs.along_cons rfl (by decide) ?_
  refine Runs.along_cons rfl (by decide) ?_
  refine Runs.along_cons rfl (by decide) ?_
  refine Runs.along_cons rfl trivial ?_
  refine Runs.along_cons rfl trivial ?_
  exact Runs.along_cons rfl (by decide) trivial

end RasCache.Cpu.LoadStore
