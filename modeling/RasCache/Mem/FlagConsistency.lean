import Mathlib.Data.List.Induction
import RasCache.Mem.TargetOrder

/-!
# The flags of a target list against its targets

A target list keeps a summary of its targets: it is updated when a target is
added, rebuilt by `populateFlags`, and left alone by the other operations on the
list. This module compares the summary with the one that adding the targets one
by one to an empty list gives, and says for each operation when the two stay
equal.
-/
namespace RasCache.Mem

open Function

/-! ### The flags of a list built target by target -/

namespace TargetFlags

/-- The flags that must agree with the targets: all but the fill permission,
which is also granted from outside, and the upgrade flag, which may be false
early. -/
def summary (flags : TargetFlags) : TargetFlags :=
  { flags with mayNotFill := true, hasUpgrade := false }

/-- The summary as far as the command of a packet does not matter for it. -/
def withoutDemand (flags : TargetFlags) : TargetFlags := { flags with demandFetch := false }

theorem summary_ext {first second : TargetFlags}
    (rest : first.summary.withoutDemand = second.summary.withoutDemand)
    (demand : first.demandFetch = second.demandFetch) : first.summary = second.summary := by
  cases first
  cases second
  simp_all [summary, withoutDemand]

@[simp] theorem summary_idem (flags : TargetFlags) : flags.summary.summary = flags.summary := rfl

/-- The bytes written and whether further writes may merge, after a packet. -/
def writeState (bitmap : List Bool) (merges : Bool) (blkSize : Nat) (firstWrite : Bool)
    (pkt : Packet) : List Bool × Bool :=
  let flags : TargetFlags := { writesBitmap := bitmap, canMergeWrites := merges }
  let written := flags.updateWriteFlags blkSize firstWrite pkt
  (written.writesBitmap, written.canMergeWrites)

/-- `updateWriteFlags` reads and changes the two flags about writes only. -/
theorem updateWriteFlags_eq (flags : TargetFlags) (blkSize : Nat) (firstWrite : Bool)
    (pkt : Packet) :
    flags.updateWriteFlags blkSize firstWrite pkt =
      { flags with
        writesBitmap :=
          (writeState flags.writesBitmap flags.canMergeWrites blkSize firstWrite pkt).1
        canMergeWrites :=
          (writeState flags.writesBitmap flags.canMergeWrites blkSize firstWrite pkt).2 } := by
  simp only [writeState, updateWriteFlags, isWholeLineWrite]
  split_ifs <;> rfl

variable (flags : TargetFlags) (blkSize : Nat) (firstWrite : Bool) (pkt : Packet)
  (source : Source) (allocOnFill : Bool)

/-- Neither of the two flags left out has a say in the others. -/
theorem updateFlags_summary :
    (flags.updateFlags blkSize firstWrite pkt source allocOnFill).summary =
      (flags.summary.updateFlags blkSize firstWrite pkt source allocOnFill).summary := by
  cases source
  case fromSnoop => simp [updateFlags]
  case fromPrefetcher => simp [updateFlags, summary]
  case fromCPU => simp [updateFlags, updateWriteFlags_eq, summary]

theorem updateFlags_demandFetch :
    (flags.updateFlags blkSize firstWrite pkt source allocOnFill).demandFetch =
      (flags.demandFetch || (decide (source ≠ .fromSnoop) && pkt.isDemandFetch)) := by
  cases source
  case fromSnoop => simp [updateFlags]
  case fromPrefetcher => simp [updateFlags]
  case fromCPU => simp [updateFlags, updateWriteFlags_eq]

theorem updateFlags_hasUpgrade :
    (flags.updateFlags blkSize firstWrite pkt source allocOnFill).hasUpgrade = (flags.hasUpgrade ||
        (decide (source ≠ .fromSnoop) && (pkt.isUpgrade || pkt.cmd == .storeCondReq))) := by
  cases source
  case fromSnoop => simp [updateFlags]
  case fromPrefetcher => simp [updateFlags, Bool.or_assoc]
  case fromCPU => simp [updateFlags, updateWriteFlags_eq, Bool.or_assoc]

end TargetFlags

/-- An upgrade, or a store conditional, which counts as one. -/
def Target.isUpgrade (t : Target) : Bool := t.pkt.isUpgrade || t.pkt.cmd == .storeCondReq

namespace TargetList

/-- The targets added one by one to an empty list. -/
def added (blkSize : Nat) (targets : List Target) : TargetList :=
  targets.foldl (fun l t => l.add blkSize t) (init blkSize)

def summaryOf (blkSize : Nat) (targets : List Target) : TargetFlags :=
  (added blkSize targets).flags.summary

theorem added_snoc (blkSize : Nat) (targets : List Target) (t : Target) :
    added blkSize (targets ++ [t]) = (added blkSize targets).add blkSize t := by
  simp [added]

@[simp] theorem added_list (blkSize : Nat) (targets : List Target) :
    (added blkSize targets).list = targets := by
  induction targets using List.reverseRecOn with
  | nil => rfl
  | append_singleton _ _ ih =>
    rw [added_snoc]
    simp [add, ih]

/-- Adding a target to a list adds it to the summary. -/
theorem summaryOf_snoc {blkSize : Nat} {targets : List Target} (t : Target) {flags : TargetFlags}
    (same : flags.summary = summaryOf blkSize targets) :
    (flags.updateFlags blkSize targets.isEmpty t.pkt t.source t.allocOnFill).summary =
      summaryOf blkSize (targets ++ [t]) := by
  rw [summaryOf, added_snoc, add, added_list, TargetFlags.updateFlags_summary, same,
    summaryOf, ← TargetFlags.updateFlags_summary]

theorem added_demandFetch (blkSize : Nat) (targets : List Target) :
    (added blkSize targets).flags.demandFetch =
      targets.any fun t => decide (t.source ≠ .fromSnoop) && t.pkt.isDemandFetch := by
  induction targets using List.reverseRecOn with
  | nil => rfl
  | append_singleton _ _ ih =>
    rw [added_snoc, add, TargetFlags.updateFlags_demandFetch, ih]
    simp

/-! ### Rebuilding the flags -/

/-- A write that does not merge with others, on the CPU side. As the first target
it still counts as a whole-line write when it covers the line. -/
def specialWrite (blkSize : Nat) (t : Target) : Bool :=
  decide (t.source = .fromCPU) && t.pkt.isWrite && !TargetFlags.compatWrite t.pkt.req.flags &&
    decide (0 < t.pkt.size) && decide (0 < blkSize)

/-- Rebuilding forgets no bytes: the list does not begin with a special write. -/
def Rebuildable (blkSize : Nat) (targets : List Target) : Prop :=
  ∀ first, targets.head? = some first → specialWrite blkSize first = false

end TargetList

namespace TargetFlags

/-- The flags after further targets are added to a list that is not empty. -/
def extended (blkSize : Nat) (flags : TargetFlags) (targets : List Target) : TargetFlags :=
  targets.foldl (fun flags t => flags.updateFlags blkSize false t.pkt t.source t.allocOnFill) flags

theorem extended_snoc (blkSize : Nat) (flags : TargetFlags) (targets : List Target) (t : Target) :
    extended blkSize flags (targets ++ [t]) =
      (extended blkSize flags targets).updateFlags blkSize false t.pkt t.source t.allocOnFill := by
  simp [extended]

theorem added_cons (blkSize : Nat) (first : Target) (rest : List Target) :
    (TargetList.added blkSize (first :: rest)).flags = extended blkSize
        ((reset blkSize).updateFlags blkSize true first.pkt first.source first.allocOnFill)
        rest := by
  induction rest using List.reverseRecOn with
  | nil => rfl
  | append_singleton _ _ ih =>
    rw [extended_snoc, ← ih, ← List.cons_append, TargetList.added_snoc]
    simp [TargetList.add]

theorem extended_unmerged (blkSize : Nat) {flags : TargetFlags} (targets : List Target)
    (stopped : flags.canMergeWrites = false) :
    (extended blkSize flags targets).writesBitmap = flags.writesBitmap ∧
      (extended blkSize flags targets).canMergeWrites = false := by
  induction targets using List.reverseRecOn with
  | nil => exact ⟨rfl, stopped⟩
  | append_singleton targets t ih =>
    obtain ⟨bitmap, merges⟩ := ih
    rw [extended_snoc]
    generalize extended blkSize flags targets = sofar at bitmap merges
    cases source : t.source <;> simp [updateFlags, updateWriteFlags, bitmap, merges]

/-- The first target of a list counts its bytes even when it does not merge. -/
theorem updateFlags_first {blkSize : Nat} {t : Target}
    (plain : TargetList.specialWrite blkSize t = false) :
    (reset blkSize).updateFlags blkSize true t.pkt t.source t.allocOnFill =
      (reset blkSize).updateFlags blkSize false t.pkt t.source t.allocOnFill := by
  cases source : t.source
  case fromSnoop => simp [updateFlags]
  case fromPrefetcher => simp [updateFlags]
  case fromCPU =>
    simp only [TargetList.specialWrite, source, decide_true, Bool.true_and, Bool.and_eq_false_iff,
      Bool.not_eq_false', decide_eq_false_iff_not, Nat.not_lt, Nat.le_zero] at plain
    simp only [updateFlags, reduceCtorEq, if_false, updateWriteFlags, isWholeLineWrite, reset]
    rcases plain with ((reads | compat) | empty) | none
    · simp [reads]
    · simp [compat]
    · -- an empty write covers no byte
      have untouched : ∀ bitmap : List Bool, (bitmap.mapIdx fun i written => written ||
          (decide (t.pkt.getOffset blkSize ≤ i) &&
            decide (i < t.pkt.getOffset blkSize + t.pkt.size))) =
            bitmap := by
        intro _
        apply List.ext_getElem
        · simp
        · intro i _ _
          have outside : (decide (t.pkt.getOffset blkSize ≤ i) &&
              decide (i < t.pkt.getOffset blkSize + t.pkt.size)) = false := by
            rw [Bool.and_eq_false_iff, decide_eq_false_iff_not, decide_eq_false_iff_not]
            omega
          simp only [List.getElem_mapIdx, outside, Bool.or_false]
      simp only [untouched, ite_self]
    · simp [none]

/-- A special write in front writes at least one byte. -/
theorem updateFlags_special {blkSize : Nat} {t : Target}
    (special : TargetList.specialWrite blkSize t = true) :
    let counted := (reset blkSize).updateFlags blkSize true t.pkt t.source t.allocOnFill
    let rebuilt := (reset blkSize).updateFlags blkSize false t.pkt t.source t.allocOnFill
    counted.writesBitmap ≠ rebuilt.writesBitmap ∧ counted.canMergeWrites = false ∧
      rebuilt.canMergeWrites = false := by
  simp only [TargetList.specialWrite, Bool.and_eq_true, decide_eq_true_eq, Bool.not_eq_true']
    at special
  obtain ⟨⟨⟨⟨source, writes⟩, incompatible⟩, covers⟩, room⟩ := special
  have unwritten : (reset blkSize).isWholeLineWrite = false := by
    simp [isWholeLineWrite, reset, Nat.pos_iff_ne_zero.mp room]
  have fresh : (List.replicate blkSize false).all id = false := unwritten
  have inside : t.pkt.getOffset blkSize < blkSize := Nat.mod_lt _ room
  simp only [updateFlags, source, reduceCtorEq, if_false, updateWriteFlags, isWholeLineWrite, reset,
    fresh, Bool.false_eq_true, if_true, writes, Bool.not_true, incompatible, Bool.or_false,
    ne_eq, and_self, and_true]
  intro same
  -- the byte at the offset of the write tells the two apart
  have byte := congrArg (fun bitmap => bitmap[t.pkt.getOffset blkSize]?) same
  simp [inside, covers] at byte

end TargetFlags

namespace TargetList

/-- Rebuilding gives the summary of adding the targets one by one, unless the
first of them is a special write. -/
theorem populateFlags_summary_iff (blkSize : Nat) (targets : List Target) :
    (TargetFlags.populateFlags blkSize targets).summary = summaryOf blkSize targets ↔
      Rebuildable blkSize targets := by
  cases targets with
  | nil => simp [Rebuildable, summaryOf, added, init, TargetFlags.populateFlags]
  | cons first rest =>
    have rebuilt : TargetFlags.populateFlags blkSize (first :: rest) =
        TargetFlags.extended blkSize ((TargetFlags.reset blkSize).updateFlags blkSize false
          first.pkt first.source first.allocOnFill) rest := rfl
    rw [summaryOf, TargetFlags.added_cons, rebuilt]
    constructor
    · intro same _ head
      cases head
      by_contra special
      -- the first target is counted in one of the bitmaps only, and the rest does not merge
      obtain ⟨differ, counted, uncounted⟩ :=
        TargetFlags.updateFlags_special (by simpa using special)
      have bitmap := congrArg TargetFlags.writesBitmap same
      apply differ
      rw [← (TargetFlags.extended_unmerged blkSize rest counted).1,
        ← (TargetFlags.extended_unmerged blkSize rest uncounted).1]
      exact bitmap.symm
    · intro plain
      rw [TargetFlags.updateFlags_first (plain first rfl)]

theorem populateFlags_hasUpgrade {blkSize : Nat} {targets : List Target}
    (flagged : (TargetFlags.populateFlags blkSize targets).hasUpgrade = true) :
    ∃ t ∈ targets, t.isUpgrade = true := by
  induction targets using List.reverseRecOn with
  | nil => cases flagged
  | append_singleton targets t ih =>
    have last : TargetFlags.populateFlags blkSize (targets ++ [t]) =
        (TargetFlags.populateFlags blkSize targets).updateFlags blkSize false t.pkt t.source
          t.allocOnFill := TargetFlags.extended_snoc blkSize _ targets t
    rw [last, TargetFlags.updateFlags_hasUpgrade, Bool.or_eq_true] at flagged
    rcases flagged with before | now
    · obtain ⟨u, mem, upgrade⟩ := ih before
      exact ⟨u, List.mem_append_left _ mem, upgrade⟩
    · refine ⟨t, by simp, ?_⟩
      exact (Bool.and_eq_true_iff.mp now).2

/-! ### Consistency -/

/-- The flags are those of the targets. -/
structure Consistent (blkSize : Nat) (l : TargetList) : Prop where
  summary : l.flags.summary = summaryOf blkSize l.list
  upgrade : l.flags.hasUpgrade = true → ∃ t ∈ l.list, t.isUpgrade = true

theorem init_consistent (blkSize : Nat) : (init blkSize).Consistent blkSize :=
  ⟨rfl, fun never => by cases never⟩

variable {l : TargetList} {blkSize : Nat}

theorem Consistent.add (kept : l.Consistent blkSize) (t : Target) :
    (l.add blkSize t).Consistent blkSize := by
  constructor
  · exact summaryOf_snoc t kept.summary
  · intro flagged
    rw [TargetList.add, TargetFlags.updateFlags_hasUpgrade, Bool.or_eq_true] at flagged
    rcases flagged with before | now
    · obtain ⟨u, mem, upgrade⟩ := kept.upgrade before
      exact ⟨u, List.mem_append_left _ mem, upgrade⟩
    · refine ⟨t, by simp [TargetList.add], ?_⟩
      exact (Bool.and_eq_true_iff.mp now).2

theorem populated_consistent_iff (blkSize : Nat) (targets : List Target) :
    (populated blkSize targets).Consistent blkSize ↔ Rebuildable blkSize targets := by
  constructor
  · intro kept
    exact (populateFlags_summary_iff blkSize targets).mp kept.summary
  · intro plain
    exact ⟨(populateFlags_summary_iff blkSize targets).mpr plain, populateFlags_hasUpgrade⟩

/-- No buffered upgrade becomes the first demand fetch of the list when it is
replaced: an upgrade is no demand fetch, the read it turns into can be one. -/
def UpgradesSettled (l : TargetList) : Prop :=
  l.flags.hasUpgrade = true → l.flags.demandFetch = false →
    ∀ t ∈ l.list, t.source ≠ .fromSnoop → (replaceUpgrade t.pkt).isDemandFetch = false

/-- The command that replaces an upgrade asks for the same. -/
theorem replaceUpgrade_kind (pkt : Packet) :
    (replaceUpgrade pkt).needsWritable = pkt.needsWritable ∧
      (replaceUpgrade pkt).fromCache = pkt.fromCache ∧
      (replaceUpgrade pkt).isWrite = pkt.isWrite := by
  unfold replaceUpgrade Packet.needsWritable Packet.fromCache Packet.isWrite
  split <;> simp_all [MemCmd.has, MemCmd.attributes]

theorem replaceUpgrade_request (pkt : Packet) :
    (replaceUpgrade pkt).req = pkt.req ∧ (replaceUpgrade pkt).addr = pkt.addr ∧
      (replaceUpgrade pkt).size = pkt.size := by
  unfold replaceUpgrade
  split <;> exact ⟨rfl, rfl, rfl⟩

/-- What a packet brings into the flags, but for the two that tell upgrades and
demand fetches. -/
theorem updateFlags_replaced {flags other : TargetFlags} (blkSize : Nat) (firstWrite : Bool)
    (pkt : Packet) (source : Source) (allocOnFill : Bool)
    (same : flags.summary.withoutDemand = other.summary.withoutDemand) :
    (flags.updateFlags blkSize firstWrite (replaceUpgrade pkt) source
        allocOnFill).summary.withoutDemand =
      (other.updateFlags blkSize firstWrite pkt source allocOnFill).summary.withoutDemand := by
  obtain ⟨writable, shared, writes⟩ := replaceUpgrade_kind pkt
  obtain ⟨req, addr, size⟩ := replaceUpgrade_request pkt
  -- the summaries agree but for the demand flag, so the fields they are made of do
  obtain ⟨_, _, _, _, _, _, _, _⟩ := flags
  obtain ⟨_, _, _, _, _, _, _, _⟩ := other
  simp only [TargetFlags.summary, TargetFlags.withoutDemand, TargetFlags.mk.injEq] at same
  obtain ⟨rfl, _, rfl, _, _, rfl, rfl, rfl⟩ := same
  cases source
  case fromSnoop => simp [TargetFlags.updateFlags, TargetFlags.summary, TargetFlags.withoutDemand]
  case fromPrefetcher =>
    simp [TargetFlags.updateFlags, TargetFlags.summary, TargetFlags.withoutDemand, writable]
  case fromCPU =>
    have written : ∀ bitmap merges,
        TargetFlags.writeState bitmap merges blkSize firstWrite (replaceUpgrade pkt) =
          TargetFlags.writeState bitmap merges blkSize firstWrite pkt := by
      intro _ _
      simp only [TargetFlags.writeState, TargetFlags.updateWriteFlags, writes, req,
        Packet.getOffset, addr, size]
      rfl
    simp [TargetFlags.updateFlags, TargetFlags.updateWriteFlags_eq, TargetFlags.summary,
      TargetFlags.withoutDemand, writable, shared, written]

theorem summaryOf_replaced (blkSize : Nat) (targets : List Target) :
    (summaryOf blkSize
      (targets.map fun t => { t with pkt := replaceUpgrade t.pkt })).withoutDemand =
      (summaryOf blkSize targets).withoutDemand := by
  induction targets using List.reverseRecOn with
  | nil => rfl
  | append_singleton _ t ih =>
    rw [List.map_append, List.map_singleton, summaryOf, summaryOf, added_snoc, added_snoc, add, add,
      added_list, added_list, List.isEmpty_map]
    exact updateFlags_replaced blkSize _ t.pkt t.source t.allocOnFill ih

theorem replaceUpgrade_isDemandFetch {pkt : Packet} (demand : pkt.isDemandFetch = true) :
    (replaceUpgrade pkt).isDemandFetch = true := by
  unfold replaceUpgrade
  split <;>
    simp_all [Packet.isDemandFetch, Packet.isRead, Packet.isWrite, MemCmd.has, MemCmd.attributes]

/-- Replacing upgrades keeps the flags right exactly when it brings in no demand
fetch. -/
theorem replaceUpgrades_consistent_iff (kept : l.Consistent blkSize) :
    l.replaceUpgrades.Consistent blkSize ↔ l.UpgradesSettled := by
  by_cases flagged : l.flags.hasUpgrade = true
  · have demand : l.flags.demandFetch =
        l.list.any fun t => decide (t.source ≠ .fromSnoop) && t.pkt.isDemandFetch := by
      have same := congrArg TargetFlags.demandFetch kept.summary
      exact same.trans (added_demandFetch blkSize l.list)
    have replaced : l.replaceUpgrades =
        { list := l.list.map fun t => { t with pkt := replaceUpgrade t.pkt }
          flags := { l.flags with hasUpgrade := false } } := by
      simp [replaceUpgrades, flagged]
    have demanded := added_demandFetch blkSize
      (l.list.map fun t => { t with pkt := replaceUpgrade t.pkt })
    constructor
    · intro after _ undemanded t mem cpu
      have same := congrArg TargetFlags.demandFetch after.summary
      rw [replaced] at same
      -- the flag was clear and is kept, so no replaced target may set it
      have none : (added blkSize (l.list.map fun t =>
          { t with pkt := replaceUpgrade t.pkt })).flags.demandFetch = false :=
        same.symm.trans undemanded
      rw [demanded, List.any_map, List.any_eq_false] at none
      simpa [cpu] using none t mem
    · intro settled
      rw [replaced]
      refine ⟨?_, fun never => by cases never⟩
      apply TargetFlags.summary_ext
      · -- but for the demand flag the replaced targets add up to the same
        have rest := summaryOf_replaced blkSize l.list
        rw [← kept.summary] at rest
        exact rest.symm
      · rw [demanded]
        change l.flags.demandFetch = _
        cases fetches : l.flags.demandFetch with
        | true =>
          rw [demand] at fetches
          obtain ⟨t, mem, both⟩ := List.any_eq_true.mp fetches
          obtain ⟨cpu, asks⟩ := Bool.and_eq_true_iff.mp both
          symm
          rw [List.any_map, List.any_eq_true]
          exact ⟨t, mem, Bool.and_eq_true_iff.mpr ⟨cpu, replaceUpgrade_isDemandFetch asks⟩⟩
        | false =>
          symm
          rw [List.any_map, List.any_eq_false]
          intro t mem both
          obtain ⟨cpu, asks⟩ := Bool.and_eq_true_iff.mp both
          have quiet := settled flagged fetches t mem (by simpa using cpu)
          exact absurd (asks.symm.trans quiet) (by decide)
  · have same : l.replaceUpgrades = l := by simp [replaceUpgrades, flagged]
    rw [same]
    exact ⟨fun _ upgrade => absurd upgrade flagged, fun _ => kept⟩

end TargetList

/-! ### Runs -/

/-- An entry of the MSHR queue and the counter its targets take their order
from. -/
structure MshrSlot where
  mshr : Option Mshr := none
  order : Nat := 0
deriving Repr, DecidableEq

namespace MshrSlot

inductive Event where
  | op (op : MshrOp)
  | forceDeallocateTarget
deriving Repr, DecidableEq

def next (s : MshrSlot) : Event → Option (Option Mshr)
  | .op op => (Mshr.apply s.order s.mshr op).map Prod.fst
  | .forceDeallocateTarget => s.mshr.bind Mshr.forceDeallocateTarget

def step (s : MshrSlot) (e : Event) : Option MshrSlot :=
  (s.next e).map fun mshr => { mshr, order := s.order + 1 }

end MshrSlot

namespace Mshr

/-- The flags of both lists are those of their targets. -/
structure Consistent (mshr : Mshr) : Prop where
  targets : mshr.targets.Consistent mshr.blkSize
  deferred : mshr.deferredTargets.Consistent mshr.blkSize

/-- Both lists can be rebuilt once deferred targets have moved up behind
`left`. -/
def Reissuable (blkSize : Nat) (left deferred : List Target) : Prop :=
  TargetList.Rebuildable blkSize (left ++ deferred.take (promotable left deferred)) ∧
    TargetList.Rebuildable blkSize (deferred.drop (promotable left deferred))

/-- The flags, which are not rebuilt, already sum up the deferred targets that
move up by `promoteIf`. -/
def Absorbs (mshr : Mshr) (flags : TargetFlags) (pred : Target → Bool) : Prop :=
  flags.summary = TargetList.summaryOf mshr.blkSize
      (mshr.targets.list ++ mshr.deferredTargets.list.takeWhile pred) ∧
    TargetList.Rebuildable mshr.blkSize (mshr.deferredTargets.list.dropWhile pred)

/-- The condition on the state before an operation. -/
def FlagsKept (mshr : Mshr) (order : Nat) : MshrSlot.Event → Prop
  | .op (.handleSnoop pkt) =>
    (mshr.handleSnoop pkt order).isSome → (pkt.needsWritable || pkt.req.isCacheInvalidate) = true →
      ((!mshr.inService || (pkt.expressSnoop && mshr.downstreamPending)) = true →
        mshr.targets.UpgradesSettled) ∧ mshr.deferredTargets.UpgradesSettled
  | .op (.extractServiceableTargets cmd) =>
    extractable cmd mshr.targets.list = true →
      TargetList.Rebuildable mshr.blkSize (leftBehind cmd mshr.targets.list)
  | .op .promoteDeferredTargets =>
    Reissuable mshr.blkSize mshr.targets.list mshr.deferredTargets.list
  | .op .promoteReadable =>
    mshr.deferredTargets.list ≠ [] → mshr.postInvalidate = false → mshr.downstreamPending = false →
      mshr.Absorbs mshr.targets.flags fun t => !t.pkt.req.isCacheInvalidate && !t.pkt.needsWritable
  | .op .promoteWritable =>
    ∀ first, mshr.deferredTargets.list.head? = some first →
      mshr.deferredTargets.flags.needsWritable = true → mshr.postInvalidate = false →
      mshr.postDowngrade = false → first.pkt.req.isCacheInvalidate = false →
      mshr.needsWritable = false → mshr.downstreamPending = false →
        mshr.Absorbs { mshr.targets.flags with needsWritable := true }
          fun t => !t.pkt.req.isCacheInvalidate
  | .forceDeallocateTarget =>
    ∀ front rest, mshr.targets.list = front :: rest →
      if rest = [] then Reissuable mshr.blkSize [] mshr.deferredTargets.list
      else
        TargetList.summaryOf mshr.blkSize rest =
            TargetList.summaryOf mshr.blkSize mshr.targets.list ∧
          (mshr.targets.flags.hasUpgrade = true → ∃ t ∈ rest, t.isUpgrade = true)
  | _ => True

variable {after : Mshr}

theorem consistent_of_lists {before : Mshr} (kept : before.Consistent)
    (targets : after.targets = before.targets)
    (deferred : after.deferredTargets = before.deferredTargets)
    (blkSize : after.blkSize = before.blkSize) : after.Consistent := by
  constructor
  · rw [targets, blkSize]
    exact kept.targets
  · rw [deferred, blkSize]
    exact kept.deferred

theorem allocate_consistent (blkAddr : Addr) (blkSize : Nat) (pkt : Packet) (order : Nat)
    (allocOnFill : Bool) : (allocate blkAddr blkSize pkt order allocOnFill).Consistent := by
  constructor
  · apply TargetList.Consistent.add
    exact TargetList.init_consistent blkSize
  · exact TargetList.init_consistent blkSize

variable {mshr : Mshr}

theorem updateMayNotFill_consistent (kept : mshr.Consistent) (mayNotFill : Bool) :
    (mshr.updateMayNotFill mayNotFill).Consistent := by
  refine ⟨?_, kept.deferred⟩
  simp only [updateMayNotFill, TargetList.updateMayNotFill]
  split
  · exact ⟨kept.targets.summary, kept.targets.upgrade⟩
  · exact kept.targets

theorem allocateTarget_consistent (kept : mshr.Consistent) {pkt : Packet} {order : Nat}
    {allocOnFill : Bool} (allocated : mshr.allocateTarget pkt order allocOnFill = some after) :
    after.Consistent := by
  cases allocateTarget_cases allocated with
  | deferred => exact ⟨kept.targets, kept.deferred.add _⟩
  | joined => exact ⟨kept.targets.add _, kept.deferred⟩

theorem saveSnoop_consistent_iff (pkt : Packet) (order : Nat)
    (targets : mshr.targets.Consistent mshr.blkSize) :
    (mshr.snoopInService pkt order).mshr.Consistent ↔
      mshr.deferredTargets.Consistent mshr.blkSize := by
  by_cases saves : mshr.savesSnoop pkt = true
  · simp only [snoopInService, saveSnoop, saves, if_true]
    exact ⟨fun after => after.deferred, fun deferred => ⟨targets.add _, deferred⟩⟩
  · simp only [snoopInService, saveSnoop, saves, Bool.false_eq_true, if_false]
    exact ⟨fun after => after.deferred, fun deferred => ⟨targets, deferred⟩⟩

/-- A snoop that takes the line away replaces buffered upgrades; any other keeps
the flags as they are. -/
theorem handleSnoop_consistent_iff (kept : mshr.Consistent) (pkt : Packet) (order : Nat) :
    (∀ result, mshr.handleSnoop pkt order = some result → result.mshr.Consistent) ↔
      mshr.FlagsKept order (.op (.handleSnoop pkt)) := by
  have settles := TargetList.replaceUpgrades_consistent_iff kept.targets
  have settles_deferred := TargetList.replaceUpgrades_consistent_iff kept.deferred
  have when : (!mshr.inService || (pkt.expressSnoop && mshr.downstreamPending)) =
      !mshr.comesLate pkt := by rw [comesLate, Bool.not_and, Bool.not_not]
  cases handled : mshr.handleSnoop pkt order with
  | none => simp [FlagsKept, handled]
  | some result =>
    simp only [FlagsKept, handled, Option.some.injEq, forall_eq', Option.isSome_some, true_implies,
      when, ← settles, ← settles_deferred]
    cases handleSnoop_cases handled with
    | replaced early takes =>
      simp only [early, takes, Bool.not_false, true_implies]
      exact ⟨fun after => ⟨after.targets, after.deferred⟩, fun both => ⟨both.1, both.2⟩⟩
    | ignored _ stays => exact ⟨fun _ takes => absurd takes stays, fun _ => kept⟩
    | due late front rest shape =>
      -- only the deferred upgrades are replaced: the others are already on their way
      by_cases takes : (pkt.needsWritable || pkt.req.isCacheInvalidate) = true
      · simp only [withoutUpgrades, late, takes, Bool.not_true, Bool.false_eq_true, false_implies,
          true_and, true_implies, if_true]
        exact ⟨fun after => after.deferred, fun deferred => ⟨kept.targets, deferred⟩⟩
      · simp only [withoutUpgrades, takes, Bool.false_eq_true, false_implies, if_false, iff_true]
        exact kept
    | saved late front rest shape =>
      by_cases takes : (pkt.needsWritable || pkt.req.isCacheInvalidate) = true
      · simp only [withoutUpgrades, late, takes, Bool.not_true, Bool.false_eq_true, false_implies,
          true_and, true_implies, if_true]
        exact saveSnoop_consistent_iff pkt order kept.targets
      · simp only [withoutUpgrades, takes, Bool.false_eq_true, false_implies, if_false, iff_true]
        exact (saveSnoop_consistent_iff pkt order kept.targets).mpr kept.deferred

theorem promoteIf_consistent_iff (kept : mshr.Consistent) (flags : TargetFlags)
    (upgrade : flags.hasUpgrade = mshr.targets.flags.hasUpgrade) (pred : Target → Bool) :
    (∀ after, ({ mshr with targets := { mshr.targets with flags } } : Mshr).promoteIf pred =
      some after → after.Consistent) ↔
      (mshr.downstreamPending = false → mshr.Absorbs flags pred) := by
  by_cases pending : mshr.downstreamPending = true
  · simp [promoteIf, pending]
  · simp only [promoteIf, pending, Bool.false_eq_true, if_false, Option.some.injEq,
      forall_eq'] at pending ⊢
    simp only [true_implies, Absorbs, ← TargetList.populated_consistent_iff]
    constructor
    · intro after
      exact ⟨after.targets.summary, after.deferred⟩
    · rintro ⟨summary, deferred⟩
      refine ⟨⟨summary, fun flagged => ?_⟩, deferred⟩
      obtain ⟨t, mem, upgrades⟩ := kept.targets.upgrade (upgrade.symm.trans flagged)
      exact ⟨t, List.mem_append_left _ mem, upgrades⟩

theorem promoteDeferredTargets_consistent_iff (mshr : Mshr) :
    (∀ after, mshr.promoteDeferredTargets = some after → after.Consistent) ↔
      Reissuable mshr.blkSize mshr.targets.list mshr.deferredTargets.list := by
  by_cases empty : mshr.waiting.isEmpty = true
  · -- the entry is freed, and no list is left to rebuild
    have none_waits : mshr.targets.list = [] ∧ mshr.deferredTargets.list = [] := by
      simpa [waiting] using empty
    simp [promoteDeferredTargets, empty, none_waits, Reissuable, TargetList.Rebuildable]
  · simp only [promoteDeferredTargets, empty, Bool.false_eq_true, if_false, Option.some.injEq,
      forall_eq', Reissuable, ← TargetList.populated_consistent_iff]
    constructor
    · intro after
      exact ⟨after.targets, after.deferred⟩
    · rintro ⟨targets, deferred⟩
      exact ⟨targets, deferred⟩

section

variable (kept : mshr.Consistent)
include kept

theorem extractServiceableTargets_consistent_iff (cmd : MemCmd) :
    (∀ ready after, mshr.extractServiceableTargets cmd = some (ready, after) → after.Consistent) ↔
      mshr.FlagsKept 0 (.op (.extractServiceableTargets cmd)) := by
  by_cases allowed : extractable cmd mshr.targets.list = true
  · simp only [extractServiceableTargets, allowed, if_true, Option.some.injEq, Prod.mk.injEq,
      FlagsKept,
      true_implies, ← TargetList.populated_consistent_iff]
    constructor
    · intro after
      exact (after _ _ ⟨rfl, rfl⟩).targets
    · rintro targets ready after ⟨_, rfl⟩
      exact ⟨targets, kept.deferred⟩
  · simp [extractServiceableTargets, allowed, FlagsKept]

theorem promoteReadable_consistent_iff :
    (∀ after, mshr.promoteReadable = some after → after.Consistent) ↔
      mshr.FlagsKept 0 (.op .promoteReadable) := by
  by_cases moves : (!mshr.deferredTargets.list.isEmpty && !mshr.postInvalidate) = true
  · have promotes := promoteIf_consistent_iff kept mshr.targets.flags rfl
      fun t => !t.pkt.req.isCacheInvalidate && !t.pkt.needsWritable
    have moved : mshr.promoteReadable =
        mshr.promoteIf fun t => !t.pkt.req.isCacheInvalidate && !t.pkt.needsWritable := by
      simp only [promoteReadable, moves, if_true]
    simp only [Bool.and_eq_true, Bool.not_eq_true', List.isEmpty_eq_false_iff] at moves
    rw [moved]
    simp only [FlagsKept, moves, ne_eq, not_false_eq_true, true_implies]
    exact promotes
  · have stays : mshr.promoteReadable = some mshr := by simp [promoteReadable, moves]
    simp only [Bool.and_eq_true, Bool.not_eq_true', not_and, Bool.not_eq_false,
      List.isEmpty_eq_false_iff] at moves
    simp only [stays, Option.some.injEq, forall_eq', FlagsKept]
    constructor
    · intro _ waits free
      exact absurd (moves waits) (by simp [free])
    · intro _
      exact kept

theorem promoteWritable_consistent_iff :
    (∀ after, mshr.promoteWritable = some after → after.Consistent) ↔
      mshr.FlagsKept 0 (.op .promoteWritable) := by
  have promotes :=
    promoteIf_consistent_iff kept { mshr.targets.flags with needsWritable := true } rfl
    fun t => !t.pkt.req.isCacheInvalidate
  cases shape : mshr.deferredTargets.list with
  | nil => simp [promoteWritable, FlagsKept, shape, kept]
  | cons first =>
    by_cases moves : (mshr.deferredTargets.flags.needsWritable &&
        !(mshr.postInvalidate || mshr.postDowngrade) && !first.pkt.req.isCacheInvalidate) = true
    · by_cases writable : mshr.needsWritable = true
      · -- the assertion that the MSHR is not writable yet fails
        simp only [Bool.and_eq_true, Bool.not_eq_true', Bool.or_eq_false_iff] at moves
        simp [promoteWritable, FlagsKept, shape, moves, writable]
      · have moved : mshr.promoteWritable = promoteIf
            { mshr with
              targets := { mshr.targets with
                flags := { mshr.targets.flags with needsWritable := true } } }
            fun t => !t.pkt.req.isCacheInvalidate := by
          simp only [promoteWritable, shape, moves, if_true, writable, Bool.false_eq_true, if_false]
        simp only [Bool.and_eq_true, Bool.not_eq_true', Bool.or_eq_false_iff] at moves
        rw [moved, promotes]
        simp only [FlagsKept, shape, List.head?_cons, Option.some.injEq, forall_eq', moves,
          true_implies, writable]
    · have stays : mshr.promoteWritable = some mshr := by
        simp only [promoteWritable, shape, moves, Bool.false_eq_true, if_false]
      simp only [stays, Option.some.injEq, forall_eq', FlagsKept, shape, List.head?_cons]
      constructor
      · intro _ needs post down invalidates
        exact absurd (by simp [needs, post, down, invalidates]) moves
      · intro _
        exact kept

/-- The front target is dropped and the flags stay, unless it was the last
one. -/
theorem forceDeallocateTarget_consistent_iff :
    (∀ left after, mshr.forceDeallocateTarget = some left → left = some after →
        after.Consistent) ↔ mshr.FlagsKept 0 .forceDeallocateTarget := by
  cases shape : mshr.targets.list with
  | nil => simp [forceDeallocateTarget, FlagsKept, shape]
  | cons front rest =>
    by_cases last : rest = []
    · -- no target is left, and the deferred ones are promoted
      have promotes := promoteDeferredTargets_consistent_iff
        { mshr with targets := { mshr.targets with list := [] } }
      simp only [forceDeallocateTarget, shape, last, List.isEmpty_nil, if_true, Option.some.injEq,
        FlagsKept, List.cons.injEq]
      constructor
      · rintro after _ _ ⟨_, rfl⟩
        rw [if_pos rfl]
        exact promotes.mp fun left same => after _ left rfl same
      · intro plain _ after same ret
        subst same
        have reissue := plain front [] ⟨rfl, rfl⟩
        rw [if_pos rfl] at reissue
        exact promotes.mpr reissue after ret
    · -- the flags stay as they are and have to suit the rest
      simp only [forceDeallocateTarget, shape, List.isEmpty_iff, last, if_false, Option.some.injEq,
        FlagsKept, List.cons.injEq]
      constructor
      · rintro after _ _ ⟨rfl, rfl⟩
        rw [if_neg last]
        have popped := after _ _ rfl rfl
        refine ⟨?_, popped.targets.upgrade⟩
        have summary := popped.targets.summary
        rw [kept.targets.summary, shape] at summary
        exact summary.symm
      · intro plain _ _ same ret
        subst same
        cases ret
        have condition := plain front rest ⟨rfl, rfl⟩
        rw [if_neg last] at condition
        refine ⟨⟨?_, condition.2⟩, kept.deferred⟩
        rw [condition.1, ← shape]
        exact kept.targets.summary

end

end Mshr

namespace MshrSlot

/-- The flags of a used entry are those of its targets. -/
def Consistent (s : MshrSlot) : Prop := ∀ mshr, s.mshr = some mshr → mshr.Consistent

/-- The condition on an entry before an operation. -/
def FlagsKept (s : MshrSlot) (e : Event) : Prop :=
  ∀ mshr, s.mshr = some mshr → mshr.FlagsKept s.order e

theorem step_consistent_iff_next (s : MshrSlot) (e : Event) :
    (∀ t, s.step e = some t → t.Consistent) ↔
      ∀ left after, s.next e = some left → left = some after → after.Consistent := by
  constructor
  · intro kept left after ret same
    exact kept ⟨left, s.order + 1⟩ (by simp [step, ret]) after same
  · intro kept _ taken after same
    obtain ⟨left, ret, rfl⟩ := Option.map_eq_some_iff.mp taken
    exact kept left after ret same

/-- An operation that does not free the entry. -/
theorem next_used_iff (s : MshrSlot) {e : Event} (computed : Option Mshr)
    (returns : s.next e = computed.map some) :
    (∀ left after, s.next e = some left → left = some after → after.Consistent) ↔
      ∀ after, computed = some after → after.Consistent := by
  rw [returns]
  constructor
  · intro kept after same
    exact kept (some after) after (by simp [same]) rfl
  · intro kept _ after ret same
    subst same
    exact kept after (by simpa using ret)

/-- Each operation keeps the flags right exactly under its condition. -/
theorem step_consistent_iff {s : MshrSlot} (e : Event) (kept : s.Consistent) :
    (∀ t, s.step e = some t → t.Consistent) ↔ s.FlagsKept e := by
  rw [step_consistent_iff_next]
  cases shape : s.mshr with
  | none =>
    -- only an allocation works on a free slot
    have free : s.FlagsKept e := by
      intro _ used
      rw [shape] at used
      cases used
    simp only [free, iff_true]
    intro _ _ ret same
    cases e with
    | forceDeallocateTarget => simp [next, shape] at ret
    | op op =>
      cases op with
      | allocate blkAddr blkSize pkt allocOnFill =>
        simp only [next, shape, Mshr.apply, Option.map_some, Option.some.injEq] at ret
        subst same
        cases ret
        exact Mshr.allocate_consistent blkAddr blkSize pkt s.order allocOnFill
      | _ => simp [next, shape, Mshr.apply] at ret
  | some mshr =>
    have kept := kept mshr shape
    have condition : s.FlagsKept e ↔ mshr.FlagsKept s.order e := by
      simp [FlagsKept, shape]
    rw [condition]
    cases e with
    | forceDeallocateTarget =>
      simp only [next, shape, Option.bind_some]
      exact Mshr.forceDeallocateTarget_consistent_iff kept
    | op op =>
      cases op with
      | allocate =>
        simp [next, shape, Mshr.apply, Mshr.FlagsKept]
      | allocateTarget pkt allocOnFill =>
        rw [next_used_iff s (mshr.allocateTarget pkt s.order allocOnFill)
          (by simp [next, shape, Mshr.apply, comp_def])]
        simp only [Mshr.FlagsKept, iff_true]
        intro _ allocated
        exact Mshr.allocateTarget_consistent kept allocated
      | handleSnoop pkt =>
        rw [next_used_iff s ((mshr.handleSnoop pkt s.order).map Mshr.SnoopResult.mshr)
          (by simp [next, shape, Mshr.apply, comp_def]),
          ← Mshr.handleSnoop_consistent_iff kept]
        simp only [Option.map_eq_some_iff, forall_exists_index, and_imp, forall_apply_eq_imp_iff₂]
      | promoteReadable =>
        rw [next_used_iff s mshr.promoteReadable (by simp [next, shape, Mshr.apply, comp_def])]
        exact Mshr.promoteReadable_consistent_iff kept
      | promoteWritable =>
        rw [next_used_iff s mshr.promoteWritable (by simp [next, shape, Mshr.apply, comp_def])]
        exact Mshr.promoteWritable_consistent_iff kept
      | extractServiceableTargets cmd =>
        rw [next_used_iff s ((mshr.extractServiceableTargets cmd).map Prod.snd)
          (by simp [next, shape, Mshr.apply, comp_def])]
        have extracts := Mshr.extractServiceableTargets_consistent_iff kept cmd
        simp only [Option.map_eq_some_iff, Prod.exists, exists_eq_right, forall_exists_index]
        rw [forall_comm]
        exact extracts
      | promoteDeferredTargets =>
        have returns : s.next (.op .promoteDeferredTargets) = some mshr.promoteDeferredTargets := by
          simp [next, shape, Mshr.apply]
        rw [returns]
        apply Iff.trans _ (Mshr.promoteDeferredTargets_consistent_iff mshr)
        constructor
        · intro kept after same
          exact kept _ after rfl same
        · intro kept _ after same ret
          cases same
          exact kept after ret
      | updateMayNotFill mayNotFill =>
        rw [next_used_iff s (some (mshr.updateMayNotFill mayNotFill))
          (by simp [next, shape, Mshr.apply])]
        simp only [Option.some.injEq, forall_eq', Mshr.FlagsKept, iff_true]
        exact Mshr.updateMayNotFill_consistent kept mayNotFill
      | markInService isForward pendingModifiedResp =>
        rw [next_used_iff s (if mshr.inService then none else
          some (Mshr.markInService { mshr with isForward } pendingModifiedResp))
          (by simp only [next, shape, Mshr.apply]; split <;> rfl)]
        simp only [Mshr.FlagsKept, iff_true]
        intro _ marked
        split at marked
        · cases marked
        · cases marked
          exact Mshr.consistent_of_lists kept rfl rfl rfl
      | markPending =>
        rw [next_used_iff s (some { mshr with inService := false })
          (by simp [next, shape, Mshr.apply])]
        simp only [Option.some.injEq, forall_eq', Mshr.FlagsKept, iff_true]
        exact Mshr.consistent_of_lists kept rfl rfl rfl
      | setDownstreamPending pending =>
        rw [next_used_iff s (some { mshr with downstreamPending := pending })
          (by simp [next, shape, Mshr.apply])]
        simp only [Option.some.injEq, forall_eq', Mshr.FlagsKept, iff_true]
        exact Mshr.consistent_of_lists kept rfl rfl rfl

/-- Along a run from a free entry, the flags of both lists always are those of
adding the current targets one by one, exactly when every operation meets its
condition. -/
theorem flags_consistent_iff (es : List Event) :
    Runs.Along step (fun s e => ∀ t, s.step e = some t → t.Consistent) {} es ↔
      Runs.Along step FlagsKept {} es := by
  have start : Consistent {} := by
    intro _ used
    cases used
  exact Runs.along_keeps_iff (fun _ _ _ _ _ => trivial)
    (fun s e _ kept => step_consistent_iff e kept) {} es trivial start

/-- A prefetch is sent; a cache above asks for a writable copy and has to wait;
the line comes back writable, and the request moves up. -/
def promotedBehindPrefetch : List Event :=
  [.op (.allocate 0 64 (.ofBlock {} .hardPFReq 0 64) true), .op (.markInService false false),
    .op (.allocateTarget (.ofBlock {} .readExReq 0 64) true), .op .promoteWritable]

/-- The target list then has a request of a cache above, but its flag says that
there is none. -/
theorem promoted_flag_stale :
    (Runs.run step {} promotedBehindPrefetch).any (fun t => t.mshr.any fun mshr =>
      mshr.targets.list.any (fun target => target.pkt.fromCache) &&
        !mshr.targets.flags.hasFromCache) = true ∧
    ¬ Runs.Along step (fun s e => ∀ t, s.step e = some t → t.Consistent) {}
      promotedBehindPrefetch := by
  refine ⟨by decide, fun along => ?_⟩
  have reached : (Runs.run step {} promotedBehindPrefetch).any (fun t => t.mshr.any fun mshr =>
      decide (mshr.targets.flags.summary ≠
        TargetList.summaryOf mshr.blkSize mshr.targets.list)) = true := by decide
  obtain ⟨t, ran, differs⟩ := (Option.any_eq_true _ _).mp reached
  obtain ⟨mshr, used, differs⟩ := (Option.any_eq_true _ _).mp differs
  have start : Consistent {} := by
    intro _ used
    cases used
  have consistent : t.Consistent :=
    Runs.run_invariant (fun _ _ u _ kept taken => kept u taken) {} t promotedBehindPrefetch start
      along ran
  exact of_decide_eq_true differs (consistent mshr used).targets.summary

end MshrSlot

end RasCache.Mem
