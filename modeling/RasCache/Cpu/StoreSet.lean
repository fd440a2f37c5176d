import Mathlib.Logic.Function.Basic
import RasCache.Foundation.OrderedCuts
import RasCache.Foundation.Runs

/-!
# The store-set predictor

Model of `StoreSet` (`cpu/o3/store_set.cc`). A table indexed by program counters
(SSIT) assigns loads and stores to store sets, and a second table (LFST) has the last
store that was inserted into each set, with `storeList` for the stores that have been
neither issued nor squashed.

A store takes its number out of the LFST when it issues, but it looks its set up in
the SSIT again, where a violation may have moved it to another set in the meantime.
`step_fresh_iff` says exactly which issues leave a number behind. Tables have the
types of their indices, so the assertions on the indices hold by construction.
-/
namespace RasCache.Cpu

open Function

/-- The tables have `indexMask + 1` and `topSSID + 1` entries. -/
structure StoreSet (indexMask topSSID : Nat) where
  SSIT : Fin (indexMask + 1) → Fin (topSSID + 1)
  validSSIT : Fin (indexMask + 1) → Bool
  LFST : Fin (topSSID + 1) → Nat
  validLFST : Fin (topSSID + 1) → Bool
  /-- In the order of the map, youngest first. -/
  storeList : List (Nat × Fin (topSSID + 1))
  memOpsPred : Nat

namespace StoreSet

variable {indexMask topSSID : Nat}

def calcIndex (pc : BitVec 64) : Fin (indexMask + 1) :=
  ⟨pc.toNat >>> 2 &&& indexMask, Nat.lt_succ_of_le Nat.and_le_right⟩

def calcSSID (pc : BitVec 64) : Fin (topSSID + 1) :=
  ⟨(pc ^^^ pc >>> 10).toNat % (topSSID + 1), Nat.mod_lt _ (Nat.succ_pos topSSID)⟩

def init : StoreSet indexMask topSSID where
  SSIT := fun _ => 0
  validSSIT := fun _ => false
  LFST := fun _ => 0
  validLFST := fun _ => false
  storeList := []
  memOpsPred := 0

/-- An entry of the SSIT is written. -/
def assign (set : StoreSet indexMask topSSID) (index : Fin (indexMask + 1))
    (ssid : Fin (topSSID + 1)) :
    StoreSet indexMask topSSID :=
  { set with
    SSIT := update set.SSIT index ssid
    validSSIT := update set.validSSIT index true }

/-- Of two valid sets the one with the lower number wins. -/
def violation (set : StoreSet indexMask topSSID) (storePC loadPC : BitVec 64) :
    StoreSet indexMask topSSID :=
  let loadIndex := calcIndex loadPC
  let storeIndex := calcIndex storePC
  match set.validSSIT loadIndex, set.validSSIT storeIndex with
  | false, false => (set.assign loadIndex (calcSSID loadPC)).assign storeIndex (calcSSID loadPC)
  | true, false => set.assign storeIndex (set.SSIT loadIndex)
  | false, true => set.assign loadIndex (set.SSIT storeIndex)
  | true, true =>
      if set.SSIT storeIndex > set.SSIT loadIndex then set.assign storeIndex (set.SSIT loadIndex)
      else set.assign loadIndex (set.SSIT storeIndex)

def clear (set : StoreSet indexMask topSSID) : StoreSet indexMask topSSID :=
  { set with validSSIT := fun _ => false, validLFST := fun _ => false, storeList := [] }

/-- Whether the next load or store wipes the predictor. -/
def wipes (clearPeriod : Nat) (set : StoreSet indexMask topSSID) : Bool :=
  set.memOpsPred + 1 > clearPeriod

def checkClear (clearPeriod : Nat) (set : StoreSet indexMask topSSID) :
    StoreSet indexMask topSSID :=
  if set.wipes clearPeriod then { set.clear with memOpsPred := 0 }
  else { set with memOpsPred := set.memOpsPred + 1 }

def insertLoad (clearPeriod : Nat) (set : StoreSet indexMask topSSID) :
    StoreSet indexMask topSSID :=
  set.checkClear clearPeriod

/-- `storeList[n] = ssid`, with the larger keys first. -/
def listStore (list : List (Nat × Fin (topSSID + 1))) (n : Nat) (ssid : Fin (topSSID + 1)) :
    List (Nat × Fin (topSSID + 1)) :=
  list.takeWhile (n < ·.1) ++ (n, ssid) :: list.dropWhile (n ≤ ·.1)

def insertStore (clearPeriod : Nat) (set : StoreSet indexMask topSSID) (storePC : BitVec 64)
    (n : Nat) : StoreSet indexMask topSSID :=
  let set := set.checkClear clearPeriod
  let index := calcIndex storePC
  if set.validSSIT index then
    { set with
      LFST := update set.LFST (set.SSIT index) n
      validLFST := update set.validLFST (set.SSIT index) true
      storeList := listStore set.storeList n (set.SSIT index) }
  else set

/-- The store an instruction has to wait for, or 0. -/
def checkInst (set : StoreSet indexMask topSSID) (pc : BitVec 64) : Nat :=
  let index := calcIndex pc
  if set.validSSIT index then
    if set.validLFST (set.SSIT index) then set.LFST (set.SSIT index) else 0
  else 0

def issued (set : StoreSet indexMask topSSID) (pc : BitVec 64) (n : Nat) (isStore : Bool) :
    StoreSet indexMask topSSID :=
  if isStore then
    let erased := { set with storeList := set.storeList.filter (·.1 ≠ n) }
    let ssid := set.SSIT (calcIndex pc)
    if set.validSSIT (calcIndex pc) && set.validLFST ssid && set.LFST ssid == n then
      { erased with validLFST := update set.validLFST ssid false }
    else erased
  else set

/-- The loop of `squash` over the entries that are left. An entry that neither branch
erases keeps the loop from ending. -/
def squashLoop (squashed : Nat) (set : StoreSet indexMask topSSID) :
    List (Nat × Fin (topSSID + 1)) → Option (StoreSet indexMask topSSID)
  | [] => some { set with storeList := [] }
  | (n, idx) :: rest =>
      if n ≤ squashed then some { set with storeList := (n, idx) :: rest }
      else
        let younger := set.LFST idx > squashed
        if set.validLFST idx ∧ younger then
          squashLoop squashed
            { set with validLFST := update set.validLFST idx false } rest
        else if ¬ set.validLFST idx ∧ younger then squashLoop squashed set rest
        else none

def squash (set : StoreSet indexMask topSSID) (squashed : Nat) :
    Option (StoreSet indexMask topSSID) :=
  squashLoop squashed set set.storeList

end StoreSet

/-- The predictor, with the number of the last store inserted and the stores that were
inserted since the last clear and have been neither issued nor squashed. -/
structure TrackedSet (indexMask topSSID : Nat) where
  set : StoreSet indexMask topSSID
  last : Nat
  waiting : List Nat

namespace TrackedSet

variable {indexMask topSSID : Nat}

inductive Call
  | violation (storePC loadPC : BitVec 64)
  | insertLoad
  | insertStore (pc : BitVec 64) (n : Nat)
  | issued (pc : BitVec 64) (n : Nat) (isStore : Bool)
  | squash (squashed : Nat)
  | clear

/-- Stores are inserted with increasing sequence numbers. -/
def step (clearPeriod : Nat) (t : TrackedSet indexMask topSSID) :
    Call → Option (TrackedSet indexMask topSSID)
  | .violation storePC loadPC => some { t with set := t.set.violation storePC loadPC }
  | .insertLoad =>
      some { t with
        set := t.set.insertLoad clearPeriod
        waiting := if t.set.wipes clearPeriod then [] else t.waiting }
  | .insertStore pc n =>
      if t.last < n then
        some {
          set := t.set.insertStore clearPeriod pc n
          last := n
          waiting := n :: if t.set.wipes clearPeriod then [] else t.waiting }
      else none
  | .issued pc n isStore =>
      some { t with
        set := t.set.issued pc n isStore
        waiting := if isStore then t.waiting.filter (· ≠ n) else t.waiting }
  | .squash squashed => do
      let set ← t.set.squash squashed
      some { t with set, waiting := t.waiting.filter (· ≤ squashed) }
  | .clear => some { t with set := t.set.clear, waiting := [] }

/-! ### What every call keeps -/

/-- The stores in the list are waiting, and no set has a last store that is older than
one of its stores in the list. -/
structure Tracks (set : StoreSet indexMask topSSID) (last : Nat) (waiting : List Nat) : Prop where
  below : ∀ store ∈ set.storeList, store.1 ≤ set.LFST store.2
  seen : ∀ store ∈ set.storeList, store.1 ≤ last
  ordered : set.storeList.Pairwise fun a b => a.1 > b.1
  waits : ∀ store ∈ set.storeList, store.1 ∈ waiting

/-- Every valid number in the LFST is that of a store in the list. -/
def Fresh (set : StoreSet indexMask topSSID) : Prop :=
  ∀ ssid, set.validLFST ssid = true → (set.LFST ssid, ssid) ∈ set.storeList

section
variable {set : StoreSet indexMask topSSID} {last n : Nat} {waiting : List Nat}

theorem violation_tables (set : StoreSet indexMask topSSID) (storePC loadPC : BitVec 64) :
    (set.violation storePC loadPC).LFST = set.LFST ∧
      (set.violation storePC loadPC).validLFST = set.validLFST ∧
      (set.violation storePC loadPC).storeList = set.storeList := by
  simp only [StoreSet.violation]
  split
  · exact ⟨rfl, rfl, rfl⟩
  · exact ⟨rfl, rfl, rfl⟩
  · exact ⟨rfl, rfl, rfl⟩
  · split <;> exact ⟨rfl, rfl, rfl⟩

theorem Tracks.congr (tracks : Tracks set last waiting) {other : StoreSet indexMask topSSID}
    (table : other.LFST = set.LFST) (list : other.storeList = set.storeList) :
    Tracks other last waiting := by
  obtain ⟨_, seen, ordered, waits⟩ := tracks
  constructor <;> rw [list]
  · rwa [table]
  · exact seen
  · exact ordered
  · exact waits

theorem Tracks.of_empty (empty : set.storeList = []) : Tracks set last waiting := by
  constructor <;> simp [empty]

/-- `checkClear` wipes the predictor or only counts. -/
theorem Tracks.checkClear (tracks : Tracks set last waiting) (clearPeriod : Nat) :
    Tracks (set.checkClear clearPeriod) last (if set.wipes clearPeriod then [] else waiting) := by
  simp only [StoreSet.checkClear]
  split
  · exact .of_empty rfl
  · exact tracks.congr rfl rfl

theorem fresh_checkClear (fresh : Fresh set) (clearPeriod : Nat) :
    Fresh (set.checkClear clearPeriod) := by
  simp only [StoreSet.checkClear]
  split
  · intro _ valid
    cases valid
  · exact fresh

/-- A number larger than all others comes first. -/
theorem listStore_eq (tracks : Tracks set last waiting) (later : last < n)
    (ssid : Fin (topSSID + 1)) :
    StoreSet.listStore set.storeList n ssid = (n, ssid) :: set.storeList := by
  have older (store) (mem : store ∈ set.storeList) : store.1 < n :=
    (tracks.seen store mem).trans_lt later
  simp only [StoreSet.listStore]
  generalize set.storeList = list at older
  cases list with
  | nil => rfl
  | cons first =>
    have := older first (by simp)
    rw [List.takeWhile_cons_of_neg (by simp only [decide_eq_true_eq]; omega),
      List.dropWhile_cons_of_neg (by simp only [decide_eq_true_eq]; omega)]
    rfl

theorem Tracks.insertStore (tracks : Tracks set last waiting) (clearPeriod : Nat) (pc : BitVec 64)
    (later : last < n) : Tracks (set.insertStore clearPeriod pc n) n
      (n :: if set.wipes clearPeriod then [] else waiting) := by
  obtain ⟨below, seen, ordered, waits⟩ := tracks.checkClear clearPeriod
  have front := listStore_eq (tracks.checkClear clearPeriod) later
  simp only [StoreSet.insertStore]
  generalize set.checkClear clearPeriod = next at *
  split
  · simp only [front]
    refine ⟨fun store mem => ?_, fun store mem => ?_, ?_, fun store mem => ?_⟩
    · rcases List.mem_cons.mp mem with rfl | old
      · simp
      · by_cases same : store.2 = next.SSIT (StoreSet.calcIndex pc)
        · simpa [same] using ((seen store old).trans_lt later).le
        · simpa [update_of_ne same] using below store old
    · rcases List.mem_cons.mp mem with rfl | old
      · exact Nat.le_refl _
      · exact ((seen store old).trans_lt later).le
    · exact List.pairwise_cons.mpr ⟨fun store old => (seen store old).trans_lt later, ordered⟩
    · rcases List.mem_cons.mp mem with rfl | old
      · simp
      · exact List.mem_cons_of_mem _ (waits store old)
  · exact ⟨below, fun store mem => ((seen store mem).trans_lt later).le, ordered,
      fun store mem => List.mem_cons_of_mem _ (waits store mem)⟩

theorem fresh_insertStore (tracks : Tracks set last waiting) (fresh : Fresh set)
    (clearPeriod : Nat) (pc : BitVec 64) (later : last < n) :
    Fresh (set.insertStore clearPeriod pc n) := by
  have front := listStore_eq (tracks.checkClear clearPeriod) later
  have fresh := fresh_checkClear fresh clearPeriod
  simp only [StoreSet.insertStore]
  generalize set.checkClear clearPeriod = next at *
  split
  · simp only [Fresh, front]
    intro ssid valid
    by_cases same : ssid = next.SSIT (StoreSet.calcIndex pc)
    · subst same
      simp
    · rw [update_of_ne same] at valid ⊢
      exact List.mem_cons_of_mem _ (fresh ssid valid)
  · exact fresh

/-! ### Issue -/

/-- A store that issues while its number is in the LFST still belongs to that set. -/
def StillAssigned (set : StoreSet indexMask topSSID) (pc : BitVec 64) (n : Nat) : Prop :=
  ∀ ssid, set.validLFST ssid = true → set.LFST ssid = n →
    set.validSSIT (StoreSet.calcIndex pc) = true ∧ set.SSIT (StoreSet.calcIndex pc) = ssid

theorem Tracks.issued (tracks : Tracks set last waiting) (pc : BitVec 64) (isStore : Bool) :
    Tracks (set.issued pc n isStore) last
      (if isStore then waiting.filter (· ≠ n) else waiting) := by
  cases isStore with
  | false => exact tracks
  | true =>
    have erased : Tracks { set with storeList := set.storeList.filter (·.1 ≠ n) } last
        (waiting.filter (· ≠ n)) := by
      refine ⟨fun store mem => ?_, fun store mem => ?_, tracks.ordered.filter _,
        fun store mem => ?_⟩ <;> obtain ⟨old, other⟩ := List.mem_filter.mp mem
      · exact tracks.below store old
      · exact tracks.seen store old
      · exact List.mem_filter.mpr ⟨tracks.waits store old, other⟩
    simp only [StoreSet.issued, if_true]
    split
    · exact erased.congr rfl rfl
    · exact erased

theorem fresh_issued_iff (fresh : Fresh set) (pc : BitVec 64) :
    Fresh (set.issued pc n true) ↔ StillAssigned set pc n := by
  simp only [StoreSet.issued, if_true]
  constructor
  · intro kept ssid valid named
    by_contra moved
    -- the number stays valid, but the store is no longer in the list
    have listed := kept ssid
    split at listed
    next taken =>
      simp only [Bool.and_eq_true, beq_iff_eq] at taken
      have other : ssid ≠ set.SSIT (StoreSet.calcIndex pc) := fun same =>
        moved ⟨taken.1.1, same.symm⟩
      simp [update_of_ne other, valid, named] at listed
    next => simp [valid, named] at listed
  · intro still ssid
    have keeps (here : set.validLFST ssid = true) (other : set.LFST ssid ≠ n) :
        (set.LFST ssid, ssid) ∈ set.storeList.filter (·.1 ≠ n) :=
      List.mem_filter.mpr ⟨fresh ssid here, by simpa using other⟩
    split
    next =>
      intro valid
      by_cases same : ssid = set.SSIT (StoreSet.calcIndex pc)
      · simp [same] at valid
      · simp only [update_of_ne same] at valid
        exact keeps valid fun named => same (still ssid valid named).2.symm
    next kept =>
      intro valid
      refine keeps valid fun named => kept ?_
      obtain ⟨assigned, same⟩ := still ssid valid named
      have valid : set.validLFST ssid = true := valid
      simp [assigned, same, valid, named]

/-! ### Squash -/

/-- The loop ends: the last store of a set is no older than the squashed one. -/
theorem squashLoop_some (squashed : Nat) (list : List (Nat × Fin (topSSID + 1)))
    (below : ∀ store ∈ list, store.1 ≤ set.LFST store.2) :
    ∃ after, StoreSet.squashLoop squashed set list = some after ∧ after.LFST = set.LFST ∧
      after.storeList = list.dropWhile (squashed < ·.1) ∧
      ∀ ssid, after.validLFST ssid = true → set.validLFST ssid = true ∧
        ∀ store ∈ list.takeWhile (squashed < ·.1), store.2 ≠ ssid := by
  induction list generalizing set with
  | nil => exact ⟨_, rfl, rfl, rfl, fun ssid valid => ⟨valid, by simp⟩⟩
  | cons store rest ih =>
    obtain ⟨n, idx⟩ := store
    have here := below (n, idx) (by simp)
    have rest_below (store) (mem : store ∈ rest) := below store (List.mem_cons_of_mem _ mem)
    simp only [StoreSet.squashLoop]
    split
    next stops =>
      have out : ¬ squashed < n := Nat.not_lt.mpr stops
      exact ⟨_, rfl, rfl, by simp [out], fun ssid valid => ⟨valid, by simp [out]⟩⟩
    next goes =>
      have out : squashed < n := Nat.lt_of_not_le goes
      have younger : set.LFST idx > squashed := out.trans_le here
      rw [List.dropWhile_cons_of_pos (by simpa using out),
        List.takeWhile_cons_of_pos (by simpa using out)]
      split
      next =>
        obtain ⟨after, done, table, list, valid⟩ :=
          @ih { set with validLFST := update set.validLFST idx false } rest_below
        refine ⟨after, done, table, list, fun ssid isValid => ?_⟩
        obtain ⟨before, others⟩ := valid ssid isValid
        by_cases same : ssid = idx
        · simp [same] at before
        · simp only [update_of_ne same] at before
          exact ⟨before, List.forall_mem_cons.mpr ⟨fun named => same named.symm, others⟩⟩
      next invalid =>
        have unset : ¬ set.validLFST idx = true := fun valid => invalid ⟨valid, younger⟩
        rw [if_pos ⟨unset, younger⟩]
        obtain ⟨after, done, table, list, valid⟩ := @ih set rest_below
        refine ⟨after, done, table, list, fun ssid isValid => ?_⟩
        obtain ⟨before, others⟩ := valid ssid isValid
        exact ⟨before, List.forall_mem_cons.mpr
          ⟨fun named : idx = ssid => unset (named ▸ before), others⟩⟩

theorem Tracks.squash (tracks : Tracks set last waiting) (squashed : Nat) :
    ∃ after, set.squash squashed = some after ∧
      Tracks after last (waiting.filter (· ≤ squashed)) ∧ (Fresh set → Fresh after) := by
  obtain ⟨after, done, table, list, valid⟩ := squashLoop_some squashed set.storeList tracks.below
  have down : ∀ a b : Nat × Fin (topSSID + 1), a.1 > b.1 → decide (squashed < b.1) = true →
      decide (squashed < a.1) = true := by
    simp only [decide_eq_true_eq]
    omega
  have older := OrderedCuts.not_of_mem_dropWhile tracks.ordered down
  have kept (store) (mem : store ∈ after.storeList) : store ∈ set.storeList := by
    rw [list] at mem
    exact (List.dropWhile_sublist _).mem mem
  refine ⟨after, done, ⟨fun store mem => ?_, fun store mem => ?_, ?_, fun store mem => ?_⟩,
    fun fresh ssid isValid => ?_⟩
  · rw [table]
    exact tracks.below store (kept store mem)
  · exact tracks.seen store (kept store mem)
  · rw [list]
    exact tracks.ordered.sublist (List.dropWhile_sublist _)
  · refine List.mem_filter.mpr ⟨tracks.waits store (kept store mem), ?_⟩
    rw [list] at mem
    simpa using older store mem
  · -- a set whose last store is squashed has become invalid
    obtain ⟨before, others⟩ := valid ssid isValid
    rw [table, list]
    rcases OrderedCuts.mem_cut (p := (squashed < ·.1)) (fresh ssid before) with gone | stays
    · exact absurd rfl (others _ gone)
    · exact stays

end

/-! ### Runs -/

/-- The condition on a call: only the issue of a store is restricted. -/
def KeepsSet (t : TrackedSet indexMask topSSID) : Call → Prop
  | .issued pc n true => StillAssigned t.set pc n
  | _ => True

theorem step_tracks (clearPeriod : Nat) (t : TrackedSet indexMask topSSID) (call : Call)
    (t' : TrackedSet indexMask topSSID) (tracks : Tracks t.set t.last t.waiting)
    (taken : t.step clearPeriod call = some t') : Tracks t'.set t'.last t'.waiting := by
  cases call with
  | violation storePC loadPC =>
    obtain ⟨table, -, list⟩ := violation_tables t.set storePC loadPC
    cases taken
    exact tracks.congr table list
  | insertLoad =>
    cases taken
    exact tracks.checkClear clearPeriod
  | insertStore pc =>
    simp only [step, Option.ite_none_right_eq_some, Option.some.injEq] at taken
    obtain ⟨later, rfl⟩ := taken
    exact tracks.insertStore clearPeriod pc later
  | issued pc _ isStore =>
    cases taken
    exact tracks.issued pc isStore
  | squash squashed =>
    obtain ⟨_, done, kept, -⟩ := tracks.squash squashed
    simp only [step, done, Option.bind_eq_bind, Option.bind_some, Option.some.injEq] at taken
    cases taken
    exact kept
  | clear =>
    cases taken
    exact .of_empty rfl

/-- Only the issue of a store that was moved to another set leaves a number behind. -/
theorem step_fresh_iff (clearPeriod : Nat) (t : TrackedSet indexMask topSSID) (call : Call)
    (tracks : Tracks t.set t.last t.waiting) (fresh : Fresh t.set) :
    (∀ t', t.step clearPeriod call = some t' → Fresh t'.set) ↔ t.KeepsSet call := by
  cases call with
  | violation storePC loadPC =>
    refine iff_of_true (fun t' taken ssid => ?_) trivial
    obtain ⟨table, valid, list⟩ := violation_tables t.set storePC loadPC
    cases taken
    rw [valid, table, list]
    exact fresh ssid
  | insertLoad =>
    refine iff_of_true (fun t' taken => ?_) trivial
    cases taken
    exact fresh_checkClear fresh clearPeriod
  | insertStore pc =>
    refine iff_of_true (fun t' taken => ?_) trivial
    simp only [step, Option.ite_none_right_eq_some, Option.some.injEq] at taken
    obtain ⟨later, rfl⟩ := taken
    exact fresh_insertStore tracks fresh clearPeriod pc later
  | issued pc _ isStore =>
    simp only [step, Option.some.injEq, forall_eq']
    cases isStore with
    | false => exact iff_of_true fresh trivial
    | true => exact fresh_issued_iff fresh pc
  | squash squashed =>
    refine iff_of_true (fun t' taken => ?_) trivial
    obtain ⟨_, done, -, kept⟩ := tracks.squash squashed
    simp only [step, done, Option.bind_eq_bind, Option.bind_some, Option.some.injEq] at taken
    cases taken
    exact kept fresh
  | clear =>
    refine iff_of_true (fun t' taken ssid valid => ?_) trivial
    cases taken
    cases valid

def start : TrackedSet indexMask topSSID := ⟨.init, 0, []⟩

/-- The predictor keeps only the numbers of stores in its list exactly if every store
that issues is still assigned to the set that has its number. As long as that is so,
`checkInst` names waiting stores only. `squash` returns in every run. -/
theorem fresh_iff_keepsSet (clearPeriod : Nat) (calls : List Call) : (Runs.Along (step clearPeriod)
        (fun t call => ∀ t', t.step clearPeriod call = some t' → Fresh t'.set)
        (start : TrackedSet indexMask topSSID) calls ↔
      Runs.Along (step clearPeriod) KeepsSet (start : TrackedSet indexMask topSSID) calls) ∧
    ∀ t : TrackedSet indexMask topSSID, Runs.run (step clearPeriod) start calls = some t →
      (∀ squashed, ∃ after, t.set.squash squashed = some after) ∧
      (Runs.Along (step clearPeriod) KeepsSet (start : TrackedSet indexMask topSSID) calls →
        ∀ pc, t.set.checkInst pc = 0 ∨ t.set.checkInst pc ∈ t.waiting) := by
  have tracks : Tracks (start : TrackedSet indexMask topSSID).set 0 [] := .of_empty rfl
  have fresh : Fresh (start : TrackedSet indexMask topSSID).set := fun ssid valid => by cases valid
  refine ⟨Runs.along_keeps_iff (step_tracks clearPeriod) (step_fresh_iff clearPeriod) start calls
    tracks fresh, fun t ran => ⟨fun squashed => ?_, fun along pc => ?_⟩⟩
  · have tracks := Runs.run_invariant
      (fun t call t' inv (_ : True) taken => step_tracks clearPeriod t call t' inv taken)
      start t calls tracks (Runs.along_trivial _ _) ran
    obtain ⟨after, done, -⟩ := tracks.squash squashed
    exact ⟨after, done⟩
  · obtain ⟨tracks, fresh⟩ := Runs.run_invariant
      (fun t call t' (both : Tracks t.set t.last t.waiting ∧ Fresh t.set) keeps taken =>
        ⟨step_tracks clearPeriod t call t' both.1 taken,
          (step_fresh_iff clearPeriod t call both.1 both.2).mpr keeps t' taken⟩)
      start t calls ⟨tracks, fresh⟩ along ran
    simp only [StoreSet.checkInst]
    split
    · split
      next valid => exact .inr (tracks.waits _ (fresh _ valid))
      next => exact .inl rfl
    · exact .inl rfl

/-- A violation moves the program counter of a store that has not issued to another set.
When the store has issued, its number stays valid and a load is told to wait for it. -/
theorem checkInst_names_issued : ∃ t : TrackedSet 3 3,
      Runs.run (step 100) start [.violation 0 5, .insertStore 0 1, .violation 12 8, .violation 0 8,
        .issued 0 1 true] = some t ∧ t.set.checkInst 5 = 1 ∧ t.waiting = [] :=
  ⟨_, rfl, rfl, rfl⟩

end TrackedSet
end RasCache.Cpu
