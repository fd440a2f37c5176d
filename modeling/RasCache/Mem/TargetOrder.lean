import RasCache.Foundation.Runs
import RasCache.Mem.Mshr

/-!
# Targets are conserved and serviced in order

One entry of the MSHR queue is followed through any sequence of operations, from
one allocation to the next. Every target the entry accepts waits in exactly one
of its two lists until it is extracted, no target is extracted twice, and the
targets of the CPU side leave in the order they came.
-/
namespace RasCache.Mem

/-! ### The operations on an entry -/

/-- What can happen to an entry of the MSHR queue. -/
inductive MshrOp where
  | allocate (blkAddr : Addr) (blkSize : Nat) (pkt : Packet) (allocOnFill : Bool)
  | allocateTarget (pkt : Packet) (allocOnFill : Bool)
  | handleSnoop (pkt : Packet)
  | promoteReadable
  | promoteWritable
  | extractServiceableTargets (cmd : MemCmd)
  | promoteDeferredTargets
  | updateMayNotFill (mayNotFill : Bool)
  | markInService (isForward pendingModifiedResp : Bool)
  | markPending
  | setDownstreamPending (pending : Bool)
deriving Repr, DecidableEq

namespace Mshr

/-- The entry after an operation, with the targets it hands out; a free entry is
`none`. The outer `none` is an operation that is not possible, or one of its
assertions failing. -/
def apply (order : Nat) : Option Mshr → MshrOp → Option (Option Mshr × List Target)
  | none, .allocate blkAddr blkSize pkt allocOnFill =>
    some (some (allocate blkAddr blkSize pkt order allocOnFill), [])
  | some mshr, .allocateTarget pkt allocOnFill =>
    (mshr.allocateTarget pkt order allocOnFill).map fun mshr => (some mshr, [])
  | some mshr, .handleSnoop pkt =>
    (mshr.handleSnoop pkt order).map fun result => (some result.mshr, [])
  | some mshr, .promoteReadable => mshr.promoteReadable.map fun mshr => (some mshr, [])
  | some mshr, .promoteWritable => mshr.promoteWritable.map fun mshr => (some mshr, [])
  | some mshr, .extractServiceableTargets cmd =>
    (mshr.extractServiceableTargets cmd).map fun (ready, mshr) => (some mshr, ready.list)
  -- without a target left the entry goes back to the free list
  | some mshr, .promoteDeferredTargets => some (mshr.promoteDeferredTargets, [])
  | some mshr, .updateMayNotFill mayNotFill => some (some (mshr.updateMayNotFill mayNotFill), [])
  | some mshr, .markInService isForward pendingModifiedResp =>
    if mshr.inService then none
    else some (some (markInService { mshr with isForward } pendingModifiedResp), [])
  | some mshr, .markPending => some (some { mshr with inService := false }, [])
  | some mshr, .setDownstreamPending pending =>
    some (some { mshr with downstreamPending := pending }, [])
  | _, _ => none

/-- `handleSnoop` keeps the snoop as a target: the request of the entry comes
before it, nothing has taken the line away yet, and it must be answered or
replayed. -/
def keepsSnoop (mshr : Mshr) (pkt : Packet) : Bool :=
  mshr.inService && !(pkt.expressSnoop && mshr.downstreamPending) && !mshr.postInvalidate &&
    !(mshr.targets.list.head?.any fun front => front.pkt.req.isCacheInvalidate) &&
    mshr.savesSnoop pkt

/-- The kind of target an operation makes the entry accept. -/
def accepts : Option Mshr → MshrOp → Option Source
  | none, .allocate _ _ pkt _ =>
    some (if pkt.cmd = .hardPFReq then .fromPrefetcher else .fromCPU)
  | some _, .allocateTarget _ _ => some .fromCPU
  | some mshr, .handleSnoop pkt => if mshr.keepsSnoop pkt then some .fromSnoop else none
  | _, _ => none

end Mshr

/-- A target by its order number, which no other target of the cache has. -/
abbrev TargetName := Nat × Source

def Target.name (t : Target) : TargetName := (t.order, t.source)

def TargetName.isCPU (name : TargetName) : Bool := decide (name.2 = .fromCPU)

/-! ### What each operation does to the waiting targets -/

/-- An entry and what it has handed out stand for the targets it had and the one
it accepted: as a collection, and in order for the CPU side. -/
structure Passes (before accepted handed after : List TargetName) : Prop where
  perm : (handed ++ after).Perm (before ++ accepted)
  cpu : (handed ++ after).filter TargetName.isCPU = (before ++ accepted).filter TargetName.isCPU

theorem Passes.of_eq {before accepted handed after : List TargetName}
    (same : handed ++ after = before ++ accepted) : Passes before accepted handed after := by
  constructor
  · rw [same]
  · rw [same]

section After

variable {before accepted handed after past all : List TargetName}

/-- The history before an operation is carried on. -/
theorem Passes.perm_after (passes : Passes before accepted handed after)
    (perm : (past ++ before).Perm all) : (past ++ handed ++ after).Perm (all ++ accepted) := by
  have moved : (past ++ (handed ++ after)).Perm (past ++ (before ++ accepted)) :=
    passes.perm.append_left past
  rw [← List.append_assoc, ← List.append_assoc] at moved
  exact moved.trans (perm.append_right accepted)

theorem Passes.cpu_after (passes : Passes before accepted handed after)
    (cpu : (past ++ before).filter TargetName.isCPU = all.filter TargetName.isCPU) :
    (past ++ handed ++ after).filter TargetName.isCPU =
      (all ++ accepted).filter TargetName.isCPU := by
  rw [List.append_assoc, List.filter_append, passes.cpu, ← List.filter_append, ← List.append_assoc,
    List.filter_append, cpu, ← List.filter_append]

end After

namespace Mshr

/-- The targets that wait, by name. -/
def names (mshr : Mshr) : List TargetName := mshr.waiting.map Target.name

theorem names_append (mshr : Mshr) : mshr.names =
      mshr.targets.list.map Target.name ++ mshr.deferredTargets.list.map Target.name := by
  simp [names, waiting]

theorem names_of_lists {before after : Mshr} (targets : after.targets.list = before.targets.list)
    (deferred : after.deferredTargets.list = before.deferredTargets.list) :
    after.names = before.names := by
  rw [names, names, waiting, waiting, targets, deferred]

variable {mshr after : Mshr} {pkt : Packet} {order : Nat}

/-- Behind a deferred target everything from the CPU side is deferred, so a new
target always comes last. -/
theorem allocateTarget_names {allocOnFill : Bool}
    (allocated : mshr.allocateTarget pkt order allocOnFill = some after) :
    after.names = mshr.names ++ [(order, .fromCPU)] := by
  cases allocateTarget_cases allocated with
  | deferred => simp [names_append, TargetList.add, Target.name]
  | joined _ _ _ joins =>
    -- nothing is deferred here: this is one of the tests of `defers`
    have none_deferred : mshr.deferredTargets.list = [] := by
      simp only [Mshr.defers, Bool.or_eq_false_iff, Bool.not_eq_false', List.isEmpty_iff] at joins
      exact joins.1.2
    simp [names_append, TargetList.add, Target.name, none_deferred]

theorem replaceUpgrades_names (l : TargetList) :
    l.replaceUpgrades.list.map Target.name = l.list.map Target.name := by
  unfold TargetList.replaceUpgrades
  split
  · simp [Target.name, Function.comp_def]
  · rfl

/-- A snoop that is kept comes behind the targets, in front of the deferred
ones. -/
theorem saveSnoop_passes (mshr : Mshr) (pkt : Packet) (order : Nat) :
    Passes mshr.names (if mshr.savesSnoop pkt then [(order, .fromSnoop)] else []) []
      (mshr.saveSnoop pkt order).names := by
  by_cases saves : mshr.savesSnoop pkt = true
  · have kept : (mshr.saveSnoop pkt order).names = mshr.targets.list.map Target.name ++
        ([(order, .fromSnoop)] ++ mshr.deferredTargets.list.map Target.name) := by
      simp [saveSnoop, saves, names_append, TargetList.add, Target.name]
    rw [if_pos saves, kept, names_append]
    constructor
    · rw [List.nil_append, List.append_assoc]
      apply List.Perm.append_left
      exact List.perm_append_comm
    · simp [TargetName.isCPU]
  · simp only [saveSnoop, saves, Bool.false_eq_true, if_false]
    apply Passes.of_eq
    simp

theorem keepsSnoop_of_early (early : mshr.comesLate pkt = false) : mshr.keepsSnoop pkt = false := by
  rw [keepsSnoop, ← comesLate, early]
  rfl

theorem keepsSnoop_of_late (late : mshr.comesLate pkt = true) {front : Target}
    {rest : List Target} (shape : mshr.targets.list = front :: rest) : mshr.keepsSnoop pkt =
      (!(mshr.postInvalidate || front.pkt.req.isCacheInvalidate) && mshr.savesSnoop pkt) := by
  rw [keepsSnoop, ← comesLate, late, shape, List.head?_cons, Option.any_some, Bool.true_and,
    Bool.not_or]

theorem handleSnoop_passes {result : SnoopResult}
    (handled : mshr.handleSnoop pkt order = some result) :
    Passes mshr.names (if mshr.keepsSnoop pkt then [(order, .fromSnoop)] else []) []
      result.mshr.names := by
  -- the packets of upgrades change, not the names
  have base_names : (mshr.withoutUpgrades pkt).names = mshr.names := by
    rcases withoutUpgrades_cases mshr pkt with same | replaced
    · rw [same]
    · rw [replaced]
      simp [names_append, replaceUpgrades_names]
  cases handleSnoop_cases handled with
  | replaced early =>
    rw [keepsSnoop_of_early early]
    apply Passes.of_eq
    simp [names_append, replaceUpgrades_names]
  | ignored early =>
    rw [keepsSnoop_of_early early]
    apply Passes.of_eq
    simp
  | due late _ _ shape invalidates =>
    have unkept : mshr.keepsSnoop pkt = false := by
      rw [keepsSnoop_of_late late shape, invalidates, Bool.not_true, Bool.false_and]
    rw [unkept]
    apply Passes.of_eq
    simp [base_names]
  | saved late _ _ shape keeps =>
    have kept : mshr.keepsSnoop pkt = (mshr.withoutUpgrades pkt).savesSnoop pkt := by
      rw [keepsSnoop_of_late late shape, keeps, Bool.not_false, Bool.true_and, savesSnoop,
        savesSnoop, withoutUpgrades_pendingModified]
    rw [kept, ← base_names]
    exact saveSnoop_passes _ pkt order

/-- `promoteIf` moves a first part of the deferred list behind the targets. -/
theorem promoteIf_names {pred : Target → Bool} (promoted : mshr.promoteIf pred = some after) :
    after.names = mshr.names := by
  unfold promoteIf at promoted
  split at promoted
  · cases promoted
  · cases promoted
    simp only [names, waiting, TargetList.populated, List.append_assoc,
      List.takeWhile_append_dropWhile]

theorem promoteReadable_names (promoted : mshr.promoteReadable = some after) :
    after.names = mshr.names := by
  unfold promoteReadable at promoted
  split at promoted
  · exact promoteIf_names promoted
  · cases promoted
    rfl

theorem promoteWritable_names (promoted : mshr.promoteWritable = some after) :
    after.names = mshr.names := by
  unfold promoteWritable at promoted
  split at promoted
  · cases promoted
    rfl
  · split at promoted
    · split at promoted
      · cases promoted
      · rw [promoteIf_names promoted]
        apply names_of_lists <;> rfl
    · cases promoted
      rfl

/-- After the last target the entry is freed; before, everything waits on. -/
theorem promoteDeferredTargets_names (mshr : Mshr) :
    (mshr.promoteDeferredTargets.elim [] names) = mshr.names := by
  unfold promoteDeferredTargets
  split
  next empty =>
    simp [names, List.isEmpty_iff.mp empty]
  next =>
    simp only [Option.elim_some, names, waiting, TargetList.populated, List.append_assoc,
      List.take_append_drop]

/-- A response takes all targets, or the first one and the snoops. What stays
behind stays in order. -/
theorem serviced_passes (cmd : MemCmd) (targets : List Target) (rest : List TargetName) :
    Passes (targets.map Target.name ++ rest) [] ((serviced cmd targets).map Target.name)
      ((leftBehind cmd targets).map Target.name ++ rest) := by
  by_cases invalidating : cmd = .readRespWithInvalidate
  · cases targets with
    | nil => simp [serviced, leftBehind, invalidating, Passes.of_eq]
    | cons first others =>
      have handed : (serviced cmd (first :: others)).map Target.name = first.name ::
          (others.filter fun t => decide (t.source = .fromSnoop)).map Target.name := by
        simp [serviced, invalidating]
      have left : (leftBehind cmd (first :: others)).map Target.name =
          (others.filter fun t => decide (t.source ≠ .fromSnoop)).map Target.name := by
        simp [leftBehind, invalidating]
      rw [handed, left]
      have split_names : ((others.filter fun t => decide (t.source = .fromSnoop)).map Target.name ++
          (others.filter fun t => decide (t.source ≠ .fromSnoop)).map Target.name).Perm
            (others.map Target.name) := by
        rw [← List.map_append]
        apply List.Perm.map
        simpa using List.filter_append_perm (fun t : Target => decide (t.source = .fromSnoop))
          others
      -- the snoops that overtake do not count for the order of the CPU side
      have overtaking : ∀ list : List Target,
          ((list.filter fun t => decide (t.source = .fromSnoop)).map Target.name).filter
            TargetName.isCPU = [] := by
        intro _
        apply List.filter_eq_nil_iff.mpr
        intro _ mem
        obtain ⟨t, kept, rfl⟩ := List.mem_map.mp mem
        have snoop : t.source = .fromSnoop := by simpa using (List.mem_filter.mp kept).2
        simp [TargetName.isCPU, Target.name, snoop]
      have staying : ∀ list : List Target,
          ((list.filter fun t => decide (t.source ≠ .fromSnoop)).map Target.name).filter
            TargetName.isCPU = (list.map Target.name).filter TargetName.isCPU := by
        intro list
        induction list with
        | nil => rfl
        | cons t _ ih =>
          cases source : t.source <;>
            simpa [source, Target.name, TargetName.isCPU] using ih
      constructor
      · rw [List.append_nil, List.map_cons, List.cons_append, List.cons_append, ← List.append_assoc]
        apply List.Perm.cons
        exact split_names.append_right rest
      · rw [List.append_nil, List.map_cons, List.cons_append, List.cons_append]
        simp only [List.filter_cons, List.filter_append, overtaking, staying, List.nil_append]
  · apply Passes.of_eq
    simp [serviced, leftBehind, invalidating]

theorem extractServiceableTargets_passes {cmd : MemCmd} {ready : TargetList}
    (extracted : mshr.extractServiceableTargets cmd = some (ready, after)) :
    Passes mshr.names [] (ready.list.map Target.name) after.names := by
  obtain ⟨handed, behind, same⟩ := extractServiceableTargets_some extracted
  rw [handed, names_append, names_append, behind, same]
  exact serviced_passes cmd mshr.targets.list _

/-- Each operation passes its targets on. -/
theorem apply_passes {mshr after : Option Mshr} {op : MshrOp} {handed : List Target}
    (applied : apply order mshr op = some (after, handed)) :
    Passes (mshr.elim [] names) ((accepts mshr op).map fun source => (order, source)).toList
      (handed.map Target.name) (after.elim [] names) := by
  cases mshr with
  | none =>
    cases op with
    | allocate =>
      cases applied
      apply Passes.of_eq
      simp [accepts, names, waiting, allocate, TargetList.add, TargetList.init, Target.name]
    | _ => cases applied
  | some mshr =>
    cases op with
    | allocate => cases applied
    -- a request and a snoop enter at the back; all else moves what is there
    | allocateTarget =>
      obtain ⟨_, allocated, same⟩ := Option.map_eq_some_iff.mp applied
      cases same
      apply Passes.of_eq
      simpa [accepts] using allocateTarget_names allocated
    | handleSnoop pkt =>
      obtain ⟨_, handled, same⟩ := Option.map_eq_some_iff.mp applied
      cases same
      have passes := handleSnoop_passes handled
      cases kept : mshr.keepsSnoop pkt <;> simpa [accepts, kept] using passes
    | promoteReadable =>
      obtain ⟨_, promoted, same⟩ := Option.map_eq_some_iff.mp applied
      cases same
      apply Passes.of_eq
      simpa [accepts] using promoteReadable_names promoted
    | promoteWritable =>
      obtain ⟨_, promoted, same⟩ := Option.map_eq_some_iff.mp applied
      cases same
      apply Passes.of_eq
      simpa [accepts] using promoteWritable_names promoted
    | extractServiceableTargets =>
      obtain ⟨⟨_, _⟩, extracted, same⟩ := Option.map_eq_some_iff.mp applied
      cases same
      exact extractServiceableTargets_passes extracted
    | promoteDeferredTargets =>
      cases applied
      apply Passes.of_eq
      simpa [accepts] using promoteDeferredTargets_names mshr
    | updateMayNotFill mayNotFill =>
      cases applied
      apply Passes.of_eq
      have same : (mshr.updateMayNotFill mayNotFill).names = mshr.names := by
        apply names_of_lists
        · simp only [Mshr.updateMayNotFill, TargetList.updateMayNotFill]
          split <;> rfl
        · rfl
      simpa [accepts] using same
    | markInService =>
      simp only [apply] at applied
      split at applied
      · cases applied
      · cases applied
        apply Passes.of_eq
        simp [accepts, names, waiting, Mshr.markInService]
    | markPending | setDownstreamPending pending =>
      cases applied
      apply Passes.of_eq
      simp [accepts, names, waiting]

end Mshr

/-! ### Runs -/

/-- One entry of the queue with its history: the targets it accepted and the
ones it handed out, oldest first. -/
structure TargetLedger where
  mshr : Option Mshr := none
  order : Nat := 0
  accepted : List TargetName := []
  extracted : List TargetName := []
deriving Repr, DecidableEq

namespace TargetLedger

/-- An operation, after other entries of the queue have drawn `others` numbers
from the counter they share. -/
structure Event where
  op : MshrOp
  others : Nat := 0
deriving Repr, DecidableEq

def step (s : TargetLedger) (e : Event) : Option TargetLedger :=
  let order := s.order + e.others
  (Mshr.apply order s.mshr e.op).map fun (mshr, handed) =>
    { mshr
      order := order + 1
      accepted :=
        s.accepted ++ ((Mshr.accepts s.mshr e.op).map fun source => (order, source)).toList
      extracted := s.extracted ++ handed.map Target.name }

def targets (s : TargetLedger) : List TargetName :=
  s.mshr.elim [] fun mshr => mshr.targets.list.map Target.name

def deferredTargets (s : TargetLedger) : List TargetName :=
  s.mshr.elim [] fun mshr => mshr.deferredTargets.list.map Target.name

theorem waiting_names (s : TargetLedger) :
    s.mshr.elim [] Mshr.names = s.targets ++ s.deferredTargets := by
  cases shape : s.mshr with
  | none => simp [targets, deferredTargets, shape]
  | some => simp [targets, deferredTargets, shape, Mshr.names_append]

/-- The numbers of the accepted targets grow, the targets are handed out or wait,
and those of the CPU side are handed out first that came first. -/
structure Conserved (s : TargetLedger) : Prop where
  fresh : ∀ name ∈ s.accepted, name.1 < s.order
  numbered : s.accepted.Pairwise fun first second => first.1 < second.1
  perm : (s.extracted ++ s.mshr.elim [] Mshr.names).Perm s.accepted
  cpu : (s.extracted ++ s.mshr.elim [] Mshr.names).filter TargetName.isCPU =
    s.accepted.filter TargetName.isCPU

theorem conserved_empty : Conserved {} := by
  constructor <;> simp

theorem Conserved.step {s t : TargetLedger} {e : Event} (kept : Conserved s)
    (taken : s.step e = some t) : Conserved t := by
  obtain ⟨⟨_, _⟩, applied, rfl⟩ := Option.map_eq_some_iff.mp taken
  have passes := Mshr.apply_passes applied
  -- a target accepted now takes the number just drawn
  have drawn : ∀ name ∈ ((Mshr.accepts s.mshr e.op).map
      fun source => (s.order + e.others, source)).toList, name.1 = s.order + e.others := by
    intro _ mem
    simp only [Option.mem_toList, Option.map_eq_some_iff] at mem
    obtain ⟨_, _, rfl⟩ := mem
    rfl
  constructor
  · intro name mem
    rcases List.mem_append.mp mem with old | new
    · have before := kept.fresh name old
      change name.1 < s.order + e.others + 1
      omega
    · have now := drawn name new
      change name.1 < s.order + e.others + 1
      omega
  · apply List.pairwise_append.mpr
    refine ⟨kept.numbered, ?_, ?_⟩
    · cases Mshr.accepts s.mshr e.op <;> simp
    · intro first old second new
      have before := kept.fresh first old
      have now := drawn second new
      omega
  · exact passes.perm_after kept.perm
  · exact passes.cpu_after kept.cpu

/-- Over any sequence of operations on an entry, from its first allocation on,
the targets waiting in the two lists and those handed out are together the
accepted ones, which all have different numbers: each is in exactly one place.
The targets of the CPU side are handed out in the order they were accepted, and
the ones that wait stand in that order. -/
theorem targets_conserved (es : List Event) (t : TargetLedger)
    (ran : Runs.run step {} es = some t) :
    (t.extracted ++ (t.targets ++ t.deferredTargets)).Perm t.accepted ∧
      (t.accepted.map Prod.fst).Nodup ∧
      (t.extracted ++ (t.targets ++ t.deferredTargets)).filter TargetName.isCPU =
        t.accepted.filter TargetName.isCPU ∧
      (((t.targets ++ t.deferredTargets).filter TargetName.isCPU).map Prod.fst).Pairwise
        (· < ·) := by
  have free : Runs.Along step (fun _ _ => True) {} es := Runs.along_trivial _ es
  have conserved : Conserved t :=
    Runs.run_invariant (fun s e u kept _ taken => Conserved.step kept taken) {} t es
      conserved_empty free ran
  obtain ⟨_, numbered, perm, cpu⟩ := conserved
  rw [waiting_names] at perm cpu
  have growing : (t.accepted.map Prod.fst).Pairwise (· < ·) := by
    rw [List.pairwise_map]
    exact numbered
  refine ⟨perm, ?_, cpu, ?_⟩
  · exact growing.imp fun less => Nat.ne_of_lt less
  · -- what waits is the last part of what was accepted
    have sublist : ((t.targets ++ t.deferredTargets).filter TargetName.isCPU).Sublist
        t.accepted := by
      apply List.Sublist.trans _ (List.filter_sublist (p := TargetName.isCPU))
      rw [← cpu]
      exact (List.sublist_append_right _ _).filter _
    exact growing.sublist (sublist.map Prod.fst)

/-- A read is sent, a store waits behind it, a snoop takes the line away, and the
read is answered on its own before the store is sent again. -/
def storeBehindRead : List Event :=
  let read : Packet := .ofRequest {} .readReq 0 8
  let store : Packet := .ofRequest {} .writeReq 0 8
  let snoop : Packet := .ofBlock {} .readExReq 0 64
  [⟨.allocate 0 64 read true, 0⟩, ⟨.markInService false false, 0⟩, ⟨.allocateTarget read true, 3⟩,
    ⟨.allocateTarget store true, 0⟩, ⟨.handleSnoop snoop, 0⟩,
    ⟨.extractServiceableTargets .readRespWithInvalidate, 0⟩, ⟨.promoteDeferredTargets, 0⟩]

theorem storeBehindRead_conserved : ∃ t, Runs.run step {} storeBehindRead = some t ∧
      t.extracted = [(0, .fromCPU), (7, .fromSnoop)] ∧ t.targets = [(5, .fromCPU), (6, .fromCPU)] ∧
      (t.extracted ++ (t.targets ++ t.deferredTargets)).Perm t.accepted := by
  have reached : (Runs.run step {} storeBehindRead).any (fun t =>
      decide (t.extracted = [(0, .fromCPU), (7, .fromSnoop)] ∧
        t.targets = [(5, .fromCPU), (6, .fromCPU)])) = true := by decide
  obtain ⟨t, ran, facts⟩ := (Option.any_eq_true _ _).mp reached
  obtain ⟨extracted, waiting⟩ := of_decide_eq_true facts
  exact ⟨t, ran, extracted, waiting, (targets_conserved storeBehindRead t ran).1⟩

end TargetLedger

end RasCache.Mem
