import RasCache.Foundation.Runs
import RasCache.Mem.Mshr

/-!
# Fill permission over the life of an MSHR

An MSHR opened by no-fill requests can be granted permission to fill: by a
PfAck, by a history-buffer fetch that hits it, at its allocation, or by a
request that may fill. The grant is one flag of the target list. This module
follows one MSHR from its allocation to its deallocation and states when the
flag survives for as long as the targets the grant was made for.
-/
namespace RasCache.Mem

namespace Mshr

/-- `allocateMissBuffer`. -/
def allocateMissBuffer (blkSize : Nat) (pkt : Packet) (order : Nat)
    (allocOnFill clearNoFill : Bool) :
    Mshr :=
  let mshr := allocate (Packet.blkAlign pkt.addr blkSize) blkSize pkt order allocOnFill
  if clearNoFill then mshr.updateMayNotFill false else mshr

/-- The targets of the MSHR's next request, when `left` stay behind a response
and `deferred` wait. -/
def reissued (left deferred : List Target) : List Target :=
  left ++ deferred.take (promotable left deferred)

/-- What `recvTimingResp` does to the MSHR from `serviceMSHRTargets` on. The
inner `none` is the deallocation. -/
def serviceResponse (mshr : Mshr) (cmd : MemCmd) : Option (Option Mshr) := do
  let (_, mshr) ← mshr.extractServiceableTargets cmd
  some (mshr.promoteDeferredTargets.map fun mshr => { mshr with inService := false })

end Mshr

/-- One MSHR, the cache's order counter, and the targets (by their order) that
waited when the no-fill flag was last cleared. -/
structure PermissionState where
  mshr : Mshr
  order : Nat
  granted : List Nat
deriving Repr, DecidableEq

namespace PermissionState

inductive Event where
  | allocateTarget (pkt : Packet) (allocOnFill : Bool)
  | handleSnoop (pkt : Packet)
  /-- A PfAck or a history-buffer fetch hits the MSHR. -/
  | grant
  | setDownstreamPending (pending : Bool)
  /-- The miss packet is accepted below. -/
  | send (isForward pendingModifiedResp : Bool)
  | promoteReadable
  | promoteWritable
  /-- A response with the command `cmd` is serviced. -/
  | response (cmd : MemCmd)
  | forceDeallocateTarget
deriving Repr, DecidableEq

/-- The MSHR after the event; `none` also when the MSHR is deallocated. -/
def next (s : PermissionState) : Event → Option Mshr
  | .allocateTarget pkt allocOnFill => s.mshr.allocateTarget pkt s.order allocOnFill
  | .handleSnoop pkt => (s.mshr.handleSnoop pkt s.order).map Mshr.SnoopResult.mshr
  | .grant => some (s.mshr.updateMayNotFill false)
  | .setDownstreamPending pending => some { s.mshr with downstreamPending := pending }
  | .send isForward pendingModifiedResp =>
    if s.mshr.inService then none
    else some (Mshr.markInService { s.mshr with isForward } pendingModifiedResp)
  | .promoteReadable => s.mshr.promoteReadable
  | .promoteWritable => s.mshr.promoteWritable
  | .response cmd => if s.mshr.inService then (s.mshr.serviceResponse cmd).join else none
  | .forceDeallocateTarget => s.mshr.forceDeallocateTarget.join

/-- The event cleared the flag: it was set before, or the event is an explicit
grant. -/
def clears (before after : Mshr) (e : Event) : Bool :=
  !after.mayNotFill && (before.mayNotFill || decide (e = .grant))

def step (s : PermissionState) (e : Event) : Option PermissionState :=
  (s.next e).map fun mshr =>
    { mshr
      -- other MSHRs of the cache may draw from the counter as well
      order := s.order + 1
      granted := if clears s.mshr mshr e then mshr.waiting.map Target.order else s.granted }

/-- The MSHR as `allocateMissBuffer` leaves it. -/
def opened (blkSize : Nat) (pkt : Packet) (order : Nat) (allocOnFill clearNoFill : Bool) :
    PermissionState where
  mshr := Mshr.allocateMissBuffer blkSize pkt order allocOnFill clearNoFill
  order := order + 1
  granted :=
    let mshr := Mshr.allocateMissBuffer blkSize pkt order allocOnFill clearNoFill
    if mshr.mayNotFill then [] else mshr.waiting.map Target.order

/-- The flag is clear while a target waits that the permission was granted for. -/
def Kept (s : PermissionState) : Prop :=
  (∃ t ∈ s.mshr.waiting, t.order ∈ s.granted) → s.mshr.mayNotFill = false

/-- If a target waits on that the permission was granted for, then the next
request has a target that asks for the fill itself. -/
def Reasked (granted : List Nat) (left deferred : List Target) : Prop :=
  (∃ t ∈ left ++ deferred, t.order ∈ granted) →
    ∃ t ∈ Mshr.reissued left deferred, t.mayFill = true

/-- The condition on the state before a step. Only the steps that rebuild the
flags of the target list are restricted. -/
def Retained (s : PermissionState) : Event → Prop
  | .response cmd =>
    s.mshr.inService = true → Mshr.extractable cmd s.mshr.targets.list = true →
      Reasked s.granted (Mshr.leftBehind cmd s.mshr.targets.list) s.mshr.deferredTargets.list
  | .forceDeallocateTarget =>
    ∀ only, s.mshr.targets.list = [only] → Reasked s.granted [] s.mshr.deferredTargets.list
  | _ => True

/-- The counter is past every target and every grant. -/
structure Formed (s : PermissionState) : Prop where
  waiting : ∀ t ∈ s.mshr.waiting, t.order < s.order
  granted : ∀ n ∈ s.granted, n < s.order

end PermissionState

/-! ### What each operation does to the flag and to the waiting targets -/

/-- The operation does not set the flag again, and lets only a target of the
given order in. -/
structure Mshr.Continues (order : Nat) (before after : Mshr) : Prop where
  flag : before.mayNotFill = false → after.mayNotFill = false
  orders : ∀ t ∈ after.waiting, t.order = order ∨ ∃ u ∈ before.waiting, u.order = t.order

variable {cmd : MemCmd}

namespace Mshr

theorem Continues.of_same (order : Nat) (before after : Mshr)
    (targets : after.targets = before.targets)
    (deferred : after.deferredTargets = before.deferredTargets) : Continues order before after := by
  refine ⟨fun clear => ?_, fun t mem => .inr ⟨t, ?_, rfl⟩⟩
  · rwa [mayNotFill, targets]
  · rwa [waiting, targets, deferred] at mem

theorem Continues.trans (order : Nat) (first second third : Mshr)
    (one : Continues order first second) (two : Continues order second third) :
    Continues order first third := by
  refine ⟨fun clear => two.flag (one.flag clear), fun t mem => ?_⟩
  rcases two.orders t mem with fresh | ⟨u, waits, same⟩
  · exact .inl fresh
  · rcases one.orders u waits with fresh | ⟨v, waits', same'⟩
    · exact .inl (same ▸ fresh)
    · exact .inr ⟨v, waits', same'.trans same⟩

variable {t : Target} {mshr after : Mshr}

theorem add_targets_continues (mshr : Mshr) (order : Nat) (named : t.order = order) :
    Continues order mshr { mshr with targets := mshr.targets.add mshr.blkSize t } := by
  refine ⟨fun clear => ?_, fun u mem => ?_⟩
  · have : mshr.targets.flags.mayNotFill = false := clear
    simp [mayNotFill, TargetList.add, this]
  · simp only [waiting, TargetList.add, List.append_assoc, List.mem_append,
      List.mem_singleton] at mem ⊢
    rcases mem with old | rfl | deferred
    · exact .inr ⟨u, .inl old, rfl⟩
    · exact .inl named
    · exact .inr ⟨u, .inr deferred, rfl⟩

theorem add_deferred_continues (mshr : Mshr) {order : Nat} (named : t.order = order) :
    Continues order mshr
      { mshr with deferredTargets := mshr.deferredTargets.add mshr.blkSize t } := by
  refine ⟨id, fun u mem => ?_⟩
  simp only [waiting, TargetList.add, List.mem_append, List.mem_singleton] at mem ⊢
  rcases mem with old | deferred | rfl
  · exact .inr ⟨u, .inl old, rfl⟩
  · exact .inr ⟨u, .inr deferred, rfl⟩
  · exact .inl named

variable {pkt : Packet} {order : Nat}

theorem allocateTarget_continues {allocOnFill : Bool}
    (allocated : mshr.allocateTarget pkt order allocOnFill = some after) :
    Continues order mshr after := by
  cases allocateTarget_cases allocated with
  | deferred => exact add_deferred_continues mshr rfl
  | joined => exact add_targets_continues mshr order rfl

theorem replaceUpgrades_list {l : TargetList} (mem : t ∈ l.replaceUpgrades.list) :
    ∃ u ∈ l.list, u.order = t.order := by
  unfold TargetList.replaceUpgrades at mem
  split at mem
  · obtain ⟨u, waits, rfl⟩ := List.mem_map.mp mem
    exact ⟨u, waits, rfl⟩
  · exact ⟨t, mem, rfl⟩

@[simp] theorem replaceUpgrades_mayNotFill (l : TargetList) :
    l.replaceUpgrades.flags.mayNotFill = l.flags.mayNotFill := by
  unfold TargetList.replaceUpgrades
  split <;> rfl

theorem replaceDeferred_continues (order : Nat) (mshr : Mshr) :
    Continues order mshr
      { mshr with deferredTargets := mshr.deferredTargets.replaceUpgrades } := by
  refine ⟨id, fun t mem => .inr ?_⟩
  rcases List.mem_append.mp mem with old | deferred
  · exact ⟨t, List.mem_append_left _ old, rfl⟩
  · obtain ⟨u, waits, same⟩ := replaceUpgrades_list deferred
    exact ⟨u, List.mem_append_right _ waits, same⟩

theorem replaceTargets_continues (order : Nat) (mshr : Mshr) :
    Continues order mshr { mshr with targets := mshr.targets.replaceUpgrades } := by
  refine ⟨fun clear => ?_, fun t mem => .inr ?_⟩
  · exact (replaceUpgrades_mayNotFill mshr.targets).trans clear
  · rcases List.mem_append.mp mem with old | deferred
    · obtain ⟨u, waits, same⟩ := replaceUpgrades_list old
      exact ⟨u, List.mem_append_left _ waits, same⟩
    · exact ⟨t, List.mem_append_right _ deferred, rfl⟩

theorem saveSnoop_continues (mshr : Mshr) (pkt : Packet) (order : Nat) :
    Continues order mshr (mshr.saveSnoop pkt order) := by
  unfold saveSnoop
  split
  · exact (add_targets_continues mshr order rfl).trans order _ _ _ (.of_same order _ _ rfl rfl)
  · exact .of_same order _ _ rfl rfl

/-- A snoop kept as a target has no say in the fill. -/
theorem snoopInService_continues (mshr : Mshr) (pkt : Packet) (order : Nat) :
    Continues order mshr (mshr.snoopInService pkt order).mshr :=
  (saveSnoop_continues mshr pkt order).trans order _ _ _ (.of_same order _ _ rfl rfl)

theorem handleSnoop_continues {result : SnoopResult}
    (handled : mshr.handleSnoop pkt order = some result) : Continues order mshr result.mshr := by
  have same : Continues order mshr mshr := .of_same order mshr mshr rfl rfl
  have start : Continues order mshr (mshr.withoutUpgrades pkt) := by
    rcases withoutUpgrades_cases mshr pkt with kept | replaced
    · rw [kept]
      exact same
    · rw [replaced]
      exact replaceDeferred_continues order mshr
  cases handleSnoop_cases handled with
  | replaced =>
    exact (replaceTargets_continues order mshr).trans order _ _ _
      (replaceDeferred_continues order _)
  | ignored => exact same
  | due => exact start
  | saved => exact start.trans order _ _ _ (snoopInService_continues _ pkt order)

theorem grant_continues (order : Nat) (mshr : Mshr) :
    Continues order mshr (mshr.updateMayNotFill false) := by
  unfold updateMayNotFill TargetList.updateMayNotFill
  split
  · exact ⟨fun _ => rfl, fun t mem => .inr ⟨t, mem, rfl⟩⟩
  · exact .of_same order _ _ rfl rfl

/-- `promoteIf` moves deferred targets up and leaves the flag alone. -/
theorem promoteIf_continues (order : Nat) {pred : Target → Bool}
    (promoted : mshr.promoteIf pred = some after) : Continues order mshr after := by
  unfold promoteIf at promoted
  split at promoted
  · cases promoted
  · cases promoted
    refine ⟨id, fun t mem => .inr ⟨t, ?_, rfl⟩⟩
    simpa only [waiting, TargetList.populated, List.append_assoc,
      List.takeWhile_append_dropWhile] using mem

theorem promoteReadable_continues (order : Nat) (promoted : mshr.promoteReadable = some after) :
    Continues order mshr after := by
  unfold promoteReadable at promoted
  split at promoted
  · exact promoteIf_continues order promoted
  · cases promoted
    exact .of_same order _ _ rfl rfl

theorem promoteWritable_continues (order : Nat) (promoted : mshr.promoteWritable = some after) :
    Continues order mshr after := by
  have same : Continues order mshr mshr := .of_same order mshr mshr rfl rfl
  unfold promoteWritable at promoted
  split at promoted
  · cases promoted
    exact same
  · split at promoted
    · split at promoted
      · cases promoted
      · refine Continues.trans order _ _ _ ?_ (promoteIf_continues order promoted)
        exact ⟨id, fun t mem => .inr ⟨t, mem, rfl⟩⟩
    · cases promoted
      exact same

/-! ### Rebuilding the flags -/

/-- The flags are rebuilt from the targets of the next request: a grant that no
target repeats is forgotten. -/
structure Rebuilt (left deferred : List Target) (after : Mshr) : Prop where
  waiting : after.waiting = left ++ deferred
  flag : after.mayNotFill = !(reissued left deferred).any Target.mayFill

theorem promoteDeferredTargets_rebuilt (promoted : mshr.promoteDeferredTargets = some after) :
    Rebuilt mshr.targets.list mshr.deferredTargets.list after := by
  unfold promoteDeferredTargets at promoted
  split at promoted
  · cases promoted
  · cases promoted
    constructor
    · simp only [Mshr.waiting, TargetList.populated, List.append_assoc, List.take_append_drop]
    · exact TargetFlags.populateFlags_mayNotFill mshr.blkSize _

theorem promoteDeferredTargets_some (mshr : Mshr) (waits : mshr.waiting ≠ []) :
    ∃ after, mshr.promoteDeferredTargets = some after := by
  unfold promoteDeferredTargets
  split
  next empty => exact absurd (List.isEmpty_iff.mp empty) waits
  next => exact ⟨_, rfl⟩

theorem serviceResponse_rebuilt (serviced : (mshr.serviceResponse cmd).join = some after) :
    Rebuilt (leftBehind cmd mshr.targets.list) mshr.deferredTargets.list after := by
  simp only [serviceResponse, extractServiceableTargets] at serviced
  split at serviced
  · simp only [Option.bind_eq_bind, Option.bind_some, Option.join_some,
      Option.map_eq_some_iff] at serviced
    obtain ⟨_, ret, rfl⟩ := serviced
    obtain ⟨waiting, flag⟩ := promoteDeferredTargets_rebuilt ret
    exact ⟨waiting, flag⟩
  · cases serviced

end Mshr

namespace PermissionState

variable {after : Mshr} {s : PermissionState}

/-- After the flags were rebuilt, the permission is kept exactly when the next
request asks for the fill again. -/
theorem kept_iff_reasked (s : PermissionState) (e : Event) (order : Nat)
    {left deferred : List Target} (rebuilt : Mshr.Rebuilt left deferred after) :
    Kept ⟨after, order, if clears s.mshr after e then after.waiting.map Target.order
      else s.granted⟩ ↔ Reasked s.granted left deferred := by
  obtain ⟨waiting, flag⟩ := rebuilt
  cases asks : (Mshr.reissued left deferred).any Target.mayFill with
  | true =>
    have clear : after.mayNotFill = false := by rw [flag, asks]; rfl
    have found : ∃ t ∈ Mshr.reissued left deferred, t.mayFill = true := List.any_eq_true.mp asks
    exact ⟨fun _ _ => found, fun _ _ => clear⟩
  | false =>
    have denied : after.mayNotFill = true := by rw [flag, asks]; rfl
    have uncleared : clears s.mshr after e = false := by simp [clears, denied]
    have none_asks : ¬ ∃ t ∈ Mshr.reissued left deferred, t.mayFill = true := by
      rw [← List.any_eq_true, asks]
      exact Bool.false_ne_true
    simp only [Kept, uncleared, Bool.false_eq_true, ↓reduceIte, waiting, denied, Reasked]
    constructor
    · intro kept waits
      exact absurd (kept waits) (by simp)
    · intro asked waits
      exact absurd (asked waits) none_asks

/-- An operation that does not set the flag keeps the permission: the target it
lets in is newer than every grant. -/
theorem kept_of_continues (e : Event) (formed : s.Formed) (kept : s.Kept)
    (continues : Mshr.Continues s.order s.mshr after) :
    Kept ⟨after, s.order + 1, if clears s.mshr after e then after.waiting.map Target.order
      else s.granted⟩ := by
  rintro ⟨t, waits, granted⟩
  cases cleared : clears s.mshr after e with
  | true =>
    simp only [clears, Bool.and_eq_true, Bool.not_eq_true'] at cleared
    exact cleared.1
  | false =>
    have mem : t.order ∈ s.granted := by simpa [cleared] using granted
    have older : t.order < s.order := formed.granted t.order mem
    rcases continues.orders t waits with fresh | ⟨u, waited, same⟩
    · omega
    · exact continues.flag (kept ⟨u, waited, same ▸ mem⟩)

variable {e : Event}

/-- What one step can do to the MSHR. -/
theorem next_cases (taken : s.next e = some after) :
    Mshr.Continues s.order s.mshr after ∨ (∃ cmd, e = .response cmd ∧ Mshr.Rebuilt
      (Mshr.leftBehind cmd s.mshr.targets.list) s.mshr.deferredTargets.list after) ∨
    (∃ only, e = .forceDeallocateTarget ∧ s.mshr.targets.list = [only] ∧
      Mshr.Rebuilt [] s.mshr.deferredTargets.list after) := by
  cases e with
  | allocateTarget =>
    exact .inl (Mshr.allocateTarget_continues taken)
  | handleSnoop =>
    obtain ⟨_, handled, rfl⟩ := Option.map_eq_some_iff.mp taken
    exact .inl (Mshr.handleSnoop_continues handled)
  | grant =>
    cases taken
    exact .inl (Mshr.grant_continues s.order s.mshr)
  | setDownstreamPending =>
    cases taken
    exact .inl (.of_same s.order _ _ rfl rfl)
  | send =>
    simp only [next] at taken
    split at taken
    · cases taken
    · cases taken
      exact .inl (.of_same s.order _ _ rfl rfl)
  | promoteReadable => exact .inl (Mshr.promoteReadable_continues s.order taken)
  | promoteWritable => exact .inl (Mshr.promoteWritable_continues s.order taken)
  | response cmd =>
    simp only [next] at taken
    split at taken
    · exact .inr (.inl ⟨cmd, rfl, Mshr.serviceResponse_rebuilt taken⟩)
    · cases taken
  | forceDeallocateTarget =>
    simp only [next, Mshr.forceDeallocateTarget] at taken
    split at taken
    · cases taken
    next first _ targets =>
      simp only [Option.join_some] at taken
      split at taken
      next empty =>
        obtain rfl := List.isEmpty_iff.mp empty
        exact .inr (.inr ⟨first, rfl, targets, Mshr.promoteDeferredTargets_rebuilt taken⟩)
      next =>
        -- the flags are left as they were, and so is every other target
        cases taken
        refine .inl ⟨id, fun t mem => .inr ⟨t, ?_, rfl⟩⟩
        rcases List.mem_append.mp mem with kept | deferred
        · exact List.mem_append_left _ (targets ▸ List.mem_cons_of_mem first kept)
        · exact List.mem_append_right _ deferred

/-- Whatever waits after a step waited before it or was let in by it. -/
theorem next_orders (taken : s.next e = some after) :
    ∀ t ∈ after.waiting, t.order = s.order ∨ ∃ u ∈ s.mshr.waiting, u.order = t.order := by
  have left_waits : ∀ cmd, ∀ t ∈ Mshr.leftBehind cmd s.mshr.targets.list,
      t ∈ s.mshr.targets.list := by
    intro _ _ mem
    unfold Mshr.leftBehind at mem
    split at mem
    · exact List.mem_of_mem_tail (List.mem_of_mem_filter mem)
    · exact absurd mem List.not_mem_nil
  intro t mem
  rcases next_cases taken with
    continues | ⟨cmd, rfl, rebuilt⟩ | ⟨only, rfl, _, rebuilt⟩
  · exact continues.orders t mem
  · rw [rebuilt.waiting] at mem
    rcases List.mem_append.mp mem with left | deferred
    · exact .inr ⟨t, List.mem_append_left _ (left_waits cmd t left), rfl⟩
    · exact .inr ⟨t, List.mem_append_right _ deferred, rfl⟩
  · rw [rebuilt.waiting] at mem
    exact .inr ⟨t, List.mem_append_right _ mem, rfl⟩

theorem step_formed (s : PermissionState) (e : Event) (t : PermissionState) (formed : s.Formed)
    (taken : s.step e = some t) : t.Formed := by
  obtain ⟨after, next, rfl⟩ := Option.map_eq_some_iff.mp taken
  have below : ∀ u ∈ after.waiting, u.order < s.order + 1 := by
    intro u mem
    rcases next_orders next u mem with fresh | ⟨v, waited, same⟩
    · omega
    · have := formed.waiting v waited
      omega
  refine ⟨below, fun n mem => ?_⟩
  dsimp only at mem
  split at mem
  · obtain ⟨u, waits, rfl⟩ := List.mem_map.mp mem
    exact below u waits
  · exact Nat.lt_succ_of_lt (formed.granted n mem)

theorem response_taken (inService : s.mshr.inService = true)
    (extractable : Mshr.extractable cmd s.mshr.targets.list = true)
    (waits : Mshr.leftBehind cmd s.mshr.targets.list ++ s.mshr.deferredTargets.list ≠ []) :
    ∃ after, s.next (.response cmd) = some after := by
  obtain ⟨after, promoted⟩ := Mshr.promoteDeferredTargets_some
    { s.mshr with
      targets := .populated s.mshr.blkSize (Mshr.leftBehind cmd s.mshr.targets.list) } waits
  refine ⟨{ after with inService := false }, ?_⟩
  rw [next, if_pos inService, Mshr.serviceResponse, Mshr.extractServiceableTargets,
    if_pos extractable]
  exact congrArg (fun m => (some (Option.map _ m)).join) promoted

/-- The steps that keep the permission are exactly those that meet `Retained`. -/
theorem step_kept_iff (s : PermissionState) (e : Event) (formed : s.Formed) (kept : s.Kept) :
    (∀ t, s.step e = some t → t.Kept) ↔ s.Retained e := by
  constructor
  · intro keeps
    cases e with
    | response cmd =>
      intro inService extractable waits
      obtain ⟨_, mem, _⟩ := id waits
      obtain ⟨after, taken⟩ := response_taken inService extractable (List.ne_nil_of_mem mem)
      have rebuilt : Mshr.Rebuilt (Mshr.leftBehind cmd s.mshr.targets.list)
          s.mshr.deferredTargets.list after := by
        simp only [next, inService, ↓reduceIte] at taken
        exact Mshr.serviceResponse_rebuilt taken
      have kept_after := keeps _ (by rw [step, taken]; rfl)
      exact (kept_iff_reasked s _ _ rebuilt).mp kept_after waits
    | forceDeallocateTarget =>
      intro _ targets waits
      obtain ⟨_, mem, _⟩ := id waits
      obtain ⟨after, promoted⟩ := Mshr.promoteDeferredTargets_some
        { s.mshr with targets := { s.mshr.targets with list := [] } } (List.ne_nil_of_mem mem)
      have taken : s.next .forceDeallocateTarget = some after := by
        simp [next, Mshr.forceDeallocateTarget, targets, promoted]
      have rebuilt := Mshr.promoteDeferredTargets_rebuilt promoted
      have kept_after := keeps _ (by rw [step, taken]; rfl)
      exact (kept_iff_reasked s _ _ rebuilt).mp kept_after waits
    | _ => trivial
  · intro retained _ taken
    obtain ⟨_, next, rfl⟩ := Option.map_eq_some_iff.mp taken
    rcases next_cases next with
      continues | ⟨cmd, rfl, rebuilt⟩ | ⟨only, rfl, targets, rebuilt⟩
    · exact kept_of_continues e formed kept continues
    · refine (kept_iff_reasked s _ _ rebuilt).mpr ?_
      -- the guards of the response are those the step itself went through
      have guards : s.mshr.inService = true ∧
          Mshr.extractable cmd s.mshr.targets.list = true := by
        simp only [PermissionState.next] at next
        split at next
        next inService =>
          refine ⟨inService, ?_⟩
          by_contra blocked
          simp [Mshr.serviceResponse, Mshr.extractServiceableTargets, blocked] at next
        · cases next
      exact retained guards.1 guards.2
    · exact (kept_iff_reasked s _ _ rebuilt).mpr (retained only targets)

theorem opened_formed (blkSize : Nat) (pkt : Packet) (order : Nat)
    (allocOnFill clearNoFill : Bool) :
      (opened blkSize pkt order allocOnFill clearNoFill).Formed := by
  have one : ∀ t ∈ (Mshr.allocateMissBuffer blkSize pkt order allocOnFill clearNoFill).waiting,
      t.order = order := by
    intro t mem
    have first : t ∈ (Mshr.allocate (Packet.blkAlign pkt.addr blkSize) blkSize pkt order
        allocOnFill).waiting := by
      simp only [Mshr.allocateMissBuffer, Mshr.updateMayNotFill, TargetList.updateMayNotFill] at mem
      split_ifs at mem <;> exact mem
    simp only [Mshr.waiting, Mshr.allocate, TargetList.init, TargetList.add, List.nil_append,
      List.append_nil, List.mem_singleton] at first
    rw [first]
  refine ⟨fun t mem => ?_, fun n mem => ?_⟩
  · exact Nat.lt_succ_of_le (Nat.le_of_eq (one t mem))
  · simp only [opened] at mem
    split at mem
    · exact absurd mem List.not_mem_nil
    · obtain ⟨t, waits, rfl⟩ := List.mem_map.mp mem
      exact Nat.lt_succ_of_le (Nat.le_of_eq (one t waits))

theorem opened_kept (blkSize : Nat) (pkt : Packet) (order : Nat)
    (allocOnFill clearNoFill : Bool) : (opened blkSize pkt order allocOnFill clearNoFill).Kept := by
  rintro ⟨t, _, granted⟩
  simp only [opened] at granted
  split at granted
  · exact absurd granted List.not_mem_nil
  next clear => exact Bool.eq_false_iff.mpr clear

/-- Over the whole life of an MSHR, in every state it reaches, the fill
permission outlasts the targets it was granted for exactly when every step that
rebuilds the flags finds a target that asks for the fill itself. -/
theorem fill_permission_kept_iff (blkSize : Nat) (pkt : Packet) (order : Nat)
    (allocOnFill clearNoFill : Bool) (events : List Event) :
    Runs.Along step (fun s e => ∀ t, s.step e = some t → t.Kept)
        (opened blkSize pkt order allocOnFill clearNoFill) events ↔
      Runs.Along step Retained (opened blkSize pkt order allocOnFill clearNoFill) events :=
  Runs.along_keeps_iff step_formed step_kept_iff _ events
    (opened_formed blkSize pkt order allocOnFill clearNoFill)
    (opened_kept blkSize pkt order allocOnFill clearNoFill)

/-- Two no-fill loads wait when a history-buffer fetch grants the fill; the
response comes with an invalidation and services the first load only, and the
second one is requested again without the permission. -/
theorem grant_forgotten_after_invalidate :
    ¬ Runs.Along step (fun s e => ∀ t, s.step e = some t → t.Kept)
      (opened 64 (.noFillLoad 0) 0 true false)
      [.allocateTarget (.noFillLoad 8) true, .send false false, .grant,
        .response .readRespWithInvalidate] := by
  intro kept
  have last := kept.2 _ rfl |>.2 _ rfl |>.2 _ rfl |>.1 _ rfl
  exact absurd (last ⟨_, List.mem_cons_self, by decide⟩) (by decide)

end PermissionState

end RasCache.Mem
