import RasCache.Mem.Queue

/-!
# NO_FILL_LOWER on the way up

A cache that puts a response into the temporary block tells the caches above, by
NO_FILL_LOWER on what it answers, not to fill either. This module follows the
flag through the servicing of a response and into the fill decision of the cache
that receives it.
-/
namespace RasCache.Mem

open Outcomes

/-- A request that takes copies away and does nothing else. -/
def Packet.invalidatesOnly (pkt : Packet) : Bool :=
  pkt.isInvalidate && !pkt.isWrite && !pkt.isRead && !pkt.isUpgrade && !pkt.isClean

namespace Target

/-- The target gets a response. -/
def answered (t : Target) : Bool :=
  decide (t.source = .fromCPU) && decide (t.pkt.cmd ≠ .hardPFReq) && !t.pkt.isSWPrefetch

/-- A snoop that takes the block away. -/
def strips (t : Target) : Bool := decide (t.source = .fromSnoop) && t.pkt.isInvalidate

/-- Servicing the target leaves the block invalid. -/
def drops (t : Target) : Bool := t.strips || (t.answered && t.pkt.invalidatesOnly)

end Target

namespace Cache

variable {R : Type} (rp : ReplacementPolicy R) (cfg : CacheParams)

/-! ### The flag on the answer to one target -/

/-- What satisfying a request keeps: the flag of the packet, and the block unless
the request only invalidates. -/
structure Satisfies (ref : BlkRef) (cache after : Cache R) (pkt out : Packet) : Prop where
  flag : out.noFillLower = pkt.noFillLower
  valid : pkt.invalidatesOnly = false → (after.getBlk ref).valid = (cache.getBlk ref).valid

variable {rp cfg} {cache after : Cache R} {pkt out resp : Packet} {ref : BlkRef}
  {mshr : Mshr} {above : Packet → Bool} {t : Target} {sent : List Packet}

theorem satisfyBase_satisfies (ret : cache.satisfyBase rp pkt ref = .ok (after, out)) :
    Satisfies ref cache after pkt out := by
  unfold satisfyBase at ret
  dsimp only at ret
  split_ifs at ret <;> cases ret
  -- only the last branch takes the block away
  all_goals first
    | exact ⟨rfl, fun _ => by simp only [getBlk_setBlk]⟩
    | exact ⟨rfl, fun _ => rfl⟩
    | exact ⟨rfl, fun other => by simp_all [Packet.invalidatesOnly]⟩

variable {deferred down : Bool}

theorem grantRead_satisfies (ret : cache.grantRead cfg pkt ref deferred down = .ok (after, out)) :
    out.noFillLower = pkt.noFillLower ∧ (after.getBlk ref).valid = (cache.getBlk ref).valid := by
  unfold grantRead at ret
  dsimp only at ret
  split_ifs at ret <;> cases ret <;> exact ⟨rfl, by simp⟩

theorem satisfyRequest_satisfies
    (ret : cache.satisfyRequest rp cfg pkt ref deferred down = .ok (after, out)) :
    Satisfies ref cache after pkt out := by
  unfold satisfyRequest at ret
  split at ret
  · cases ret
  · obtain ⟨⟨_, _⟩, base, ret⟩ := bind_ok_iff.mp ret
    have first := satisfyBase_satisfies base
    dsimp only at ret
    split at ret
    · split at ret
      · cases ret
      · obtain ⟨flag, valid⟩ := grantRead_satisfies ret
        exact ⟨flag.trans first.flag, fun other => valid.trans (first.valid other)⟩
    · cases ret
      exact first

@[simp] theorem respond_noFillLower (pkt : Packet) (invalidate : Bool) :
    (respond pkt invalidate).noFillLower = pkt.noFillLower := by
  unfold respond
  dsimp only
  split <;> rfl

theorem serviceRequest_from_block (fills : mshr.isForward = false)
    (valid : (cache.getBlk ref).valid = true)
    (ret : cache.serviceRequest rp cfg mshr resp (some ref) pkt = .ok (after, out)) :
    out.noFillLower = (pkt.noFillLower || resp.noFillLower) ∧
      (pkt.invalidatesOnly = false → (after.getBlk ref).valid = true) := by
  unfold serviceRequest at ret
  simp only [Option.filter_some, valid, fills, Bool.not_false, Bool.true_or, Bool.and_self,
    if_true] at ret
  obtain ⟨⟨_, _⟩, request, ret⟩ := bind_ok_iff.mp ret
  obtain ⟨flag, stays⟩ := satisfyRequest_satisfies request
  dsimp only at ret
  split at ret <;> cases ret
  refine ⟨?_, fun other => (stays other).trans valid⟩
  rw [respond_noFillLower, flag]

theorem serviceRequest_unflagged {ref : Option BlkRef} (plain : pkt.noFillLower = false)
    (below : resp.noFillLower = false)
    (ret : cache.serviceRequest rp cfg mshr resp ref pkt = .ok (after, out)) :
    out.noFillLower = false := by
  cases serviceRequest_cases rp cfg ret with
  | satisfied _ _ _ _ request =>
    obtain ⟨flag, _⟩ := satisfyRequest_satisfies request
    simp [flag, plain, below]
  | failed => simp [plain]
  | copied => simp [Packet.copyResponderFlags, plain]
  | invalidated => simp [Packet.copyResponderFlags, plain]

theorem replaySnoop_valid (above : Packet → Bool) (cache : Cache R) (ref : BlkRef)
    (keeps : pkt.isInvalidate = false) :
    ((cache.replaySnoop rp cfg above pkt ref).getBlk ref).valid = (cache.getBlk ref).valid := by
  have written : ∀ (other : Cache R) (list : List Packet),
      (other.doWritebacks above list).getBlk ref = other.getBlk ref := by
    intro _ _
    cases ref <;> rfl
  unfold replaySnoop
  dsimp only
  split_ifs <;> simp_all

/-- One target, from a valid block: what is sent carries the flag, and the block
is still there unless the target drops it. -/
theorem serviceTarget_from_block (fills : mshr.isForward = false)
    (flagged : resp.noFillLower = true) (valid : (cache.getBlk ref).valid = true)
    (ret : cache.serviceTarget rp cfg above mshr resp (some ref) t = .ok (after, sent)) :
    (∀ p ∈ sent, p.noFillLower = true) ∧ (t.drops = false → (after.getBlk ref).valid = true) := by
  cases serviceTarget_cases ret with
  -- a prefetch is not answered
  | unused => exact ⟨by simp, fun _ => valid⟩
  | prefetched => exact ⟨by simp, fun _ => by simpa using valid⟩
  | claimed => exact ⟨by simp, fun _ => by simpa using valid⟩
  | snooped _ snoop =>
    refine ⟨by simp, fun keeps => ?_⟩
    -- only an invalidating snoop drops the block
    have kept : t.pkt.isInvalidate = false := by
      simp [Target.drops, Target.strips, snoop] at keeps
      exact keeps.1
    rw [replaySnoop_valid above cache ref kept, valid]
  | answered _ _ _ request demand wanted serviced =>
    obtain ⟨flag, stays⟩ := serviceRequest_from_block fills valid serviced
    refine ⟨fun p mem => ?_, fun keeps => stays ?_⟩
    · obtain rfl := List.mem_singleton.mp mem
      rw [flag, flagged, Bool.or_true]
    · simp [Target.drops, Target.strips, Target.answered, request, demand, wanted] at keeps
      exact keeps

theorem serviceTarget_silent {ref : Option BlkRef} (silent : t.answered = false)
    (ret : cache.serviceTarget rp cfg above mshr resp ref t = .ok (after, sent)) : sent = [] := by
  cases serviceTarget_cases ret with
  | unused => rfl
  | prefetched => rfl
  | snooped => rfl
  | claimed => rfl
  | answered _ _ _ request demand wanted =>
    simp [Target.answered, request, demand, wanted] at silent

theorem serviceTarget_unflagged {ref : Option BlkRef}
    (plain : t.answered = true → t.pkt.noFillLower = false) (below : resp.noFillLower = false)
    (ret : cache.serviceTarget rp cfg above mshr resp ref t = .ok (after, sent)) :
    ∀ p ∈ sent, p.noFillLower = false := by
  cases serviceTarget_cases ret with
  | unused => simp
  | prefetched => simp
  | snooped => simp
  | claimed => simp
  | answered _ _ _ request demand wanted serviced =>
    have asked : t.answered = true := by simp [Target.answered, request, demand, wanted]
    exact List.forall_mem_singleton.mpr (serviceRequest_unflagged (plain asked) below serviced)

/-! ### The flag on all answers to a response -/

variable {targets : List Target}

/-- As long as no target drops the block before another one is answered, every
answer is made from the block. -/
theorem serviceTargets_flagged (cache : Cache R) (sent : List Packet)
    (fills : mshr.isForward = false) (flagged : resp.noFillLower = true)
    (order : targets.Pairwise fun t u => t.drops = true → u.answered = false)
    (block : (cache.getBlk ref).valid = true ∨ ∀ t ∈ targets, t.answered = false)
    (ret : cache.serviceTargets rp cfg above mshr resp (some ref) targets =
      .ok (after, sent)) : ∀ p ∈ sent, p.noFillLower = true := by
  induction targets generalizing cache sent with
  | nil =>
    cases ret
    simp
  | cons t rest ih =>
    obtain ⟨⟨middle, first⟩, serviced, ret⟩ := bind_ok_iff.mp ret
    obtain ⟨⟨_, more⟩, looped, ret⟩ := bind_ok_iff.mp ret
    cases ret
    obtain ⟨behind, order⟩ := List.pairwise_cons.mp order
    -- as long as the block is there it answers; once it is dropped, nobody asks any more
    have here : (∀ p ∈ first, p.noFillLower = true) ∧
        ((middle.getBlk ref).valid = true ∨ ∀ u ∈ rest, u.answered = false) := by
      rcases block with valid | silent
      · obtain ⟨flags, stays⟩ := serviceTarget_from_block fills flagged valid serviced
        cases drops : t.drops with
        | false => exact ⟨flags, .inl (stays drops)⟩
        | true => exact ⟨flags, .inr fun u mem => behind u mem drops⟩
      · have none_sent := serviceTarget_silent (silent t List.mem_cons_self) serviced
        refine ⟨by simp [none_sent], .inr fun u mem => ?_⟩
        exact silent u (List.mem_cons_of_mem t mem)
    exact List.forall_mem_append.mpr ⟨here.1, ih middle more order here.2 looped⟩

theorem serviceTargets_unflagged {ref : Option BlkRef} (cache : Cache R) (sent : List Packet)
    (plain : ∀ t ∈ targets, t.answered = true → t.pkt.noFillLower = false)
    (below : resp.noFillLower = false)
    (ret : cache.serviceTargets rp cfg above mshr resp ref targets = .ok (after, sent)) :
    ∀ p ∈ sent, p.noFillLower = false := by
  induction targets generalizing cache sent with
  | nil =>
    cases ret
    simp
  | cons t _ ih =>
    obtain ⟨⟨middle, _⟩, serviced, ret⟩ := bind_ok_iff.mp ret
    obtain ⟨⟨_, more⟩, looped, ret⟩ := bind_ok_iff.mp ret
    cases ret
    exact List.forall_mem_append.mpr
      ⟨serviceTarget_unflagged (plain t List.mem_cons_self) below serviced,
        ih middle more (fun u waits => plain u (List.mem_cons_of_mem t waits)) looped⟩

theorem serviceMSHRTargets_sent {ref : Option BlkRef} {ready : TargetList}
    (ret : cache.serviceMSHRTargets rp cfg above mshr resp ref ready = .ok (after, sent)) :
    ∃ middle, cache.serviceTargets rp cfg above mshr resp ref ready.list = .ok (middle, sent) := by
  obtain ⟨⟨_, _⟩, serviced, ret⟩ := bind_ok_iff.mp ret
  dsimp only at ret
  split at ret <;> cases ret <;> exact ⟨_, serviced⟩

end Cache

/-! ### Snoops come last -/

/-- Behind a snoop that takes the block away there are only snoops: the MSHR
defers what comes later. No waiting request carries the flag. -/
structure Mshr.Calm (mshr : Mshr) : Prop where
  deferred : ∀ t ∈ mshr.deferredTargets.list, t.source ≠ .fromSnoop
  last : mshr.targets.list.Pairwise fun t u => t.strips = true → u.source = .fromSnoop
  marked : ∀ t ∈ mshr.targets.list, t.strips = true →
    mshr.inService = true ∧ mshr.postInvalidate = true
  plain : ∀ t ∈ mshr.waiting, t.source ≠ .fromSnoop → t.pkt.noFillLower = false

variable {before : Mshr} {order : Nat}

namespace Mshr

theorem strips_source {t : Target} (strips : t.strips = true) : t.source = .fromSnoop := by
  simp only [Target.strips, Bool.and_eq_true, decide_eq_true_eq] at strips
  exact strips.1

theorem Calm.of_requests (mshr : Mshr) (requests : ∀ t ∈ mshr.waiting, t.source ≠ .fromSnoop)
    (plain : ∀ t ∈ mshr.waiting, t.pkt.noFillLower = false) : mshr.Calm := by
  have none : ∀ t ∈ mshr.targets.list, t.strips ≠ true := fun t mem strips =>
    requests t (List.mem_append_left _ mem) (strips_source strips)
  refine ⟨fun t mem => requests t (List.mem_append_right _ mem), ?_, ?_, ?_⟩
  · exact List.pairwise_of_forall_mem_list fun t mem u _ strips =>
      absurd strips (none t mem)
  · exact fun t mem strips => absurd strips (none t mem)
  · exact fun t mem _ => plain t mem

variable {after mshr : Mshr}

theorem Calm.congr (calm : before.Calm) (targets : after.targets.list = before.targets.list)
    (deferred : after.deferredTargets.list = before.deferredTargets.list)
    (inService : after.inService = before.inService)
    (postInvalidate : after.postInvalidate = before.postInvalidate) : after.Calm := by
  refine ⟨?_, ?_, ?_, ?_⟩
  · rw [deferred]
    exact calm.deferred
  · rw [targets]
    exact calm.last
  · rw [targets, inService, postInvalidate]
    exact calm.marked
  · rw [waiting, targets, deferred]
    exact calm.plain

theorem allocateMissBuffer_calm (blkSize : Nat) {pkt : Packet} (order : Nat)
    (allocOnFill clearNoFill : Bool) (plain : pkt.noFillLower = false) :
    (allocateMissBuffer blkSize pkt order allocOnFill clearNoFill).Calm := by
  have first : (allocate (Packet.blkAlign pkt.addr blkSize) blkSize pkt order
    allocOnFill).Calm := by
    refine .of_requests _ ?_ ?_ <;>
      simp only [waiting, allocate, TargetList.add, TargetList.init, List.nil_append,
        List.append_nil, List.mem_singleton, forall_eq]
    · split <;> decide
    · exact plain
  unfold allocateMissBuffer
  dsimp only
  split
  · refine first.congr ?_ rfl rfl rfl
    unfold updateMayNotFill TargetList.updateMayNotFill
    split <;> rfl
  · exact first

@[simp] theorem replaceUpgrade_noFillLower (pkt : Packet) :
    (replaceUpgrade pkt).noFillLower = pkt.noFillLower := by
  unfold replaceUpgrade
  split <;> rfl

@[simp] theorem replaceUpgrade_isInvalidate (pkt : Packet) :
    (replaceUpgrade pkt).isInvalidate = pkt.isInvalidate := by
  unfold replaceUpgrade Packet.isInvalidate
  split <;> simp_all <;> rfl

theorem Calm.add (calm : before.Calm) (blkSize : Nat) (t : Target) (postInvalidate : Bool)
    (keeps : before.postInvalidate = true → postInvalidate = true)
    (behind : (∃ u ∈ before.targets.list, u.strips = true) → t.source = .fromSnoop)
    (marked : t.strips = true → before.inService = true ∧ postInvalidate = true)
    (plain : t.source ≠ .fromSnoop → t.pkt.noFillLower = false) :
    Calm { before with targets := before.targets.add blkSize t, postInvalidate } := by
  refine ⟨calm.deferred, ?_, ?_, ?_⟩
  · -- nothing but snoops comes behind a target that strips
    refine List.pairwise_append.mpr ⟨calm.last, List.pairwise_singleton _ t, ?_⟩
    intro u mem _ last strips
    obtain rfl := List.mem_singleton.mp last
    exact behind ⟨u, mem, strips⟩
  · refine List.forall_mem_append.mpr ⟨fun u old strips => ?_, List.forall_mem_singleton.mpr marked⟩
    obtain ⟨inService, post⟩ := calm.marked u old strips
    exact ⟨inService, keeps post⟩
  · intro u mem request
    simp only [waiting, TargetList.add, List.append_assoc, List.mem_append,
      List.mem_singleton] at mem
    rcases mem with old | rfl | later
    · exact calm.plain u (List.mem_append_left _ old) request
    · exact plain request
    · exact calm.plain u (List.mem_append_right _ later) request

variable {pkt : Packet}

theorem allocateTarget_calm {allocOnFill : Bool}
    (added : mshr.allocateTarget pkt order allocOnFill = some after) (calm : mshr.Calm)
    (plain : pkt.noFillLower = false) : after.Calm := by
  cases allocateTarget_cases added with
  | deferred =>
    refine ⟨?_, calm.last, calm.marked, fun t mem request => ?_⟩
    · exact List.forall_mem_append.mpr ⟨calm.deferred, List.forall_mem_singleton.mpr (by simp)⟩
    · simp only [waiting, TargetList.add, List.mem_append, List.mem_singleton] at mem
      rcases mem with old | later | rfl
      · exact calm.plain t (List.mem_append_left _ old) request
      · exact calm.plain t (List.mem_append_right _ later) request
      · dsimp only
        split
        · simpa using plain
        · exact plain
  | joined _ _ _ joins =>
    refine calm.add mshr.blkSize _ mshr.postInvalidate id ?_ (by simp [Target.strips])
      fun _ => plain
    -- the target is not deferred, so no invalidation is pending
    rintro ⟨u, mem, strips⟩
    obtain ⟨inService, post⟩ := calm.marked u mem strips
    simp [defers, inService, post] at joins

theorem replaceUpgrades_cases (l : TargetList) : l.replaceUpgrades.list = l.list ∨
    l.replaceUpgrades.list = l.list.map fun t => { t with pkt := replaceUpgrade t.pkt } := by
  unfold TargetList.replaceUpgrades
  split
  · exact .inr rfl
  · exact .inl rfl

/-- Replacing the upgrades of a list changes neither the order nor what the
packets do to the block. -/
theorem replaceUpgrades_all {P : Target → Prop}
    (same : ∀ t : Target, P t → P { t with pkt := replaceUpgrade t.pkt }) (l : TargetList)
    (all : ∀ t ∈ l.list, P t) : ∀ t ∈ l.replaceUpgrades.list, P t := by
  rcases replaceUpgrades_cases l with list | list <;> rw [list]
  · exact all
  · intro _ mem
    obtain ⟨u, waits, rfl⟩ := List.mem_map.mp mem
    exact same u (all u waits)

theorem replaceTargets_calm (calm : mshr.Calm) :
    Calm { mshr with targets := mshr.targets.replaceUpgrades } := by
  have strips : ∀ t : Target,
      Target.strips { t with pkt := replaceUpgrade t.pkt } = t.strips := fun t => by
    simp [Target.strips]
  refine ⟨calm.deferred, ?_, ?_, fun t mem request => ?_⟩
  · dsimp only
    rcases replaceUpgrades_cases mshr.targets with list | list <;> rw [list]
    · exact calm.last
    · refine List.pairwise_map.mpr (calm.last.imp ?_)
      intro t _ behind stripped
      exact behind ((strips t).symm.trans stripped)
  · refine replaceUpgrades_all (fun t marked stripped => ?_) mshr.targets calm.marked
    exact marked ((strips t).symm.trans stripped)
  · rcases List.mem_append.mp mem with old | later
    · refine replaceUpgrades_all (P := fun t => t.source ≠ .fromSnoop → t.pkt.noFillLower = false)
        (fun t plain request => ?_) mshr.targets
        (fun t waits => calm.plain t (List.mem_append_left _ waits)) t old request
      simpa using plain request
    · exact calm.plain t (List.mem_append_right _ later) request

theorem replaceDeferred_calm (mshr : Mshr) (calm : mshr.Calm) :
    Calm { mshr with deferredTargets := mshr.deferredTargets.replaceUpgrades } := by
  refine ⟨?_, calm.last, calm.marked, fun t mem request => ?_⟩
  · exact replaceUpgrades_all (fun t request => request) mshr.deferredTargets calm.deferred
  · rcases List.mem_append.mp mem with old | later
    · exact calm.plain t (List.mem_append_left _ old) request
    · refine replaceUpgrades_all (P := fun t => t.source ≠ .fromSnoop → t.pkt.noFillLower = false)
        (fun t plain request => ?_) mshr.deferredTargets
        (fun t waits => calm.plain t (List.mem_append_right _ waits)) t later request
      simpa using plain request

theorem saveSnoop_calm (mshr : Mshr) (pkt : Packet) (order : Nat)
    (inService : mshr.inService = true) (calm : mshr.Calm) : (mshr.saveSnoop pkt order).Calm := by
  unfold saveSnoop
  split
  · refine calm.add mshr.blkSize _ _ (fun post => by simp [post]) (fun _ => rfl)
      (fun strips => ⟨inService, ?_⟩) (fun request => absurd rfl request)
    have invalidates : pkt.isInvalidate = true := by
      simp only [Target.strips, decide_true, Bool.true_and, snoopCopy] at strips
      split at strips <;> exact strips
    simp [invalidates]
  · exact calm

theorem handleSnoop_calm {result : SnoopResult}
    (handled : mshr.handleSnoop pkt order = some result) (calm : mshr.Calm) : result.mshr.Calm := by
  have start : (mshr.withoutUpgrades pkt).Calm := by
    rcases withoutUpgrades_cases mshr pkt with same | replaced
    · rw [same]
      exact calm
    · rw [replaced]
      exact replaceDeferred_calm mshr calm
  cases handleSnoop_cases handled with
  | replaced => exact replaceDeferred_calm _ (replaceTargets_calm calm)
  | ignored => exact calm
  | due => exact start
  | saved late =>
    have serving : (mshr.withoutUpgrades pkt).inService = true := by
      rw [withoutUpgrades_inService]
      exact inService_of_late late
    exact (saveSnoop_calm _ pkt order serving start).congr rfl rfl rfl rfl

/-- The packet of an idle MSHR is sent: it holds no snoop that strips. -/
theorem markInService_calm (isForward pendingModifiedResp : Bool) (idle : mshr.inService = false)
    (calm : mshr.Calm) : (markInService { mshr with isForward } pendingModifiedResp).Calm := by
  refine ⟨calm.deferred, calm.last, fun t mem strips => ?_, calm.plain⟩
  have := (calm.marked t mem strips).1
  rw [idle] at this
  cases this

theorem promoteDeferredTargets_calm (requests : ∀ t ∈ mshr.waiting, t.source ≠ .fromSnoop)
    (plain : ∀ t ∈ mshr.waiting, t.pkt.noFillLower = false)
    (promoted : mshr.promoteDeferredTargets = some after) : after.Calm := by
  have waiting := (promoteDeferredTargets_rebuilt promoted).waiting
  refine .of_requests after ?_ ?_ <;> rw [waiting]
  · exact requests
  · exact plain

theorem forceDeallocateTarget_calm (popped : mshr.forceDeallocateTarget = some (some after))
    (calm : mshr.Calm) : after.Calm := by
  obtain ⟨front, rest, targets, outcome⟩ := forceDeallocateTarget_cases popped
  have tail : ∀ t ∈ rest, t ∈ mshr.targets.list := fun t mem =>
    targets ▸ List.mem_cons_of_mem front mem
  rcases outcome with ⟨_, promoted⟩ | ⟨_, rfl⟩
  · have requests := calm.deferred
    refine promoteDeferredTargets_calm ?_ ?_ promoted <;>
      simp only [waiting, List.nil_append]
    · exact requests
    · exact fun t mem => calm.plain t (List.mem_append_right _ mem) (requests t mem)
  · refine ⟨calm.deferred, ?_, fun t mem => calm.marked t (tail t mem), ?_⟩
    · have last := calm.last
      rw [targets] at last
      exact (List.pairwise_cons.mp last).2
    · obtain ⟨targets, deferred⟩ := List.forall_mem_append.mp calm.plain
      exact List.forall_mem_append.mpr ⟨fun t old => targets t (tail t old), deferred⟩

end Mshr

namespace Cache

variable {R : Type} (rp : ReplacementPolicy R) (cfg : CacheParams)

/-- No request that only takes copies away waits before one that is answered. -/
def Undropped (targets : List Target) : Prop :=
  targets.Pairwise fun t u =>
    t.answered = true → t.pkt.invalidatesOnly = true → u.answered = false

/-- In the targets a response services, only the last answered one can drop the
block: snoops that strip it come behind every request. -/
theorem Promotes.ordered {after : Mshr} {moved : List Target}
    (promotes : Promotes before after moved) (calm : before.Calm)
    (undropped : Undropped before.waiting) :
    after.targets.list.Pairwise fun t u => t.drops = true → u.answered = false := by
  have requests : ∀ t ∈ moved, t.source ≠ .fromSnoop := fun t mem =>
    calm.deferred t (promotes.deferred ▸ List.mem_append_left _ mem)
  have stripped : after.targets.list.Pairwise fun t u => t.strips = true →
    u.source = .fromSnoop := by
    rw [promotes.targets]
    refine List.pairwise_append.mpr ⟨calm.last, ?_, fun t mem u later strips => ?_⟩
    · exact List.pairwise_of_forall_mem_list fun t mem u _ strips =>
        absurd (Mshr.strips_source strips) (requests t mem)
    · -- an invalidation bars every promotion
      rw [promotes.barred (calm.marked t mem strips).2] at later
      exact absurd later List.not_mem_nil
  have head : after.targets.list.Sublist before.waiting := by
    rw [← promotes.waiting]
    exact List.sublist_append_left _ _
  refine (stripped.and (undropped.sublist head)).imp ?_
  intro _ _ both drops
  simp only [Target.drops, Bool.or_eq_true, Bool.and_eq_true] at drops
  rcases drops with strips | ⟨answered, invalidates⟩
  · simp [Target.answered, both.1 strips]
  · exact both.2 answered invalidates

/-! ### The condition and the property -/

def Calm (cache : Cache R) : Prop := ∀ entry ∈ cache.mshrs, entry.mshr.Calm

/-- The condition on the state before a step. Requests come without the flag,
and nothing below the last level sets it. Where a fill finds no block, the write
allocator must not want one against the flag, and no waiting request that only
takes copies away may be followed by another one. -/
def Heeded (cache : Cache R) : CacheEvent → Prop
  | .recvTimingReq pkt _ _ => pkt.noFillLower = false
  | .recvTimingResp id pkt _ _ =>
    ∀ mshr, cache.answered id pkt = some mshr →
      (cfg.cacheLevel = 2 → isFill mshr pkt = false → pkt.noFillLower = false) ∧
      (isFill mshr pkt = true →
        cache.tags.findBlock rp (pkt.line cfg.blkSize) = none →
          Undropped mshr.waiting ∧
          (pkt.noFillLower = true → ¬ (cfg.hasWriteAllocator = true ∧
            mshr.wasWholeLineWrite = true ∧ cache.writeAllocator.allocate = true)))
  | _ => True

/-- Everything a response is answered with carries the flag when the temporary
block took it. At the last level nothing else does. A response with the flag
brings no line into the tag array. -/
def Propagated (cache : Cache R) : CacheEvent → Prop
  | .recvTimingReq pkt tick above =>
    ∀ after sent, cache.recvTimingReq rp cfg above pkt tick = .ok (after, sent) →
      ∀ p ∈ sent.up, p.noFillLower = false
  | .recvTimingResp id pkt tick above =>
    ∀ mshr out after sent, cache.answered id pkt = some mshr →
      cache.fillStage rp cfg mshr pkt tick = .ok out →
      cache.recvTimingResp rp cfg above id pkt tick = .ok (after, sent) →
        (out.1 = some .temp → ∀ p ∈ sent, p.noFillLower = true) ∧
        (cfg.cacheLevel = 2 → out.1 ≠ some .temp → ∀ p ∈ sent, p.noFillLower = false) ∧
        (pkt.noFillLower = true → ∀ place, (after.tags.blk place).valid = true →
          (cache.tags.blk place).valid = true ∧
            (after.tags.blk place).key = (cache.tags.blk place).key)
  | .sendMSHRQueuePacket id pendingModifiedResp above =>
    ∀ after sent, cache.sendMSHRQueuePacket rp cfg above id pendingModifiedResp =
      .ok (after, sent) → ∀ p ∈ sent.down, p.noFillLower = false
  | _ => True

/-! ### Every step keeps the order of the targets -/

variable {cache after : Cache R} {mshr : Mshr} {pkt : Packet} {tick id : Nat} {sent : Sent}
  {above : Packet → Bool}

theorem mshrChange_calm {e : CacheEvent} {list : List MshrEntry}
    (change : MshrChange cfg cache e list order) (calm : cache.Calm)
    (heeded : cache.Heeded rp cfg e) : ∀ entry ∈ list, entry.mshr.Calm := by
  intro entry mem
  cases change.entries entry mem with
  | untouched _ _ waits => exact calm entry waits
  | missed _ _ _ pkt clearNoFill carries =>
    refine Mshr.allocateMissBuffer_calm cfg.blkSize cache.order _ clearNoFill ?_
    rcases carries with rfl | rfl
    · exact heeded
    · rfl
  | fetched => exact Mshr.allocateMissBuffer_calm cfg.blkSize cache.order _ true rfl
  | coalesced _ _ _ old _ waits _ added =>
    exact Mshr.allocateTarget_calm added (calm old waits) heeded
  | sent pendingModifiedResp _ old isForward waits _ idle =>
    exact Mshr.markInService_calm isForward pendingModifiedResp idle (calm old waits)
  | granted _ old waits =>
    refine (calm old waits).congr ?_ rfl rfl rfl
    unfold Mshr.updateMayNotFill TargetList.updateMayNotFill
    split <;> rfl
  | retired _ _ _ old _ _ _ _ left _ waits promotes extracts promoted =>
    have before := calm old waits
    obtain ⟨_, behind, deferred⟩ := Mshr.extractServiceableTargets_some extracts
    -- what stays behind a response are requests, in front and deferred
    have stays : ∀ t ∈ left.waiting, t ∈ old.mshr.waiting ∧ t.source ≠ .fromSnoop := by
      intro t waits
      rw [← promotes.waiting]
      rw [Mshr.waiting, behind, deferred] at waits
      rcases List.mem_append.mp waits with front | later
      · obtain ⟨inFront, request⟩ := Mshr.leftBehind_mem front
        exact ⟨List.mem_append_left _ inFront, request⟩
      · refine ⟨List.mem_append_right _ later, before.deferred t ?_⟩
        rw [promotes.deferred]
        exact List.mem_append_right _ later
    have calm_after := Mshr.promoteDeferredTargets_calm (fun t waits => (stays t waits).2)
      (fun t waits => before.plain t (stays t waits).1 (stays t waits).2) promoted
    refine ⟨calm_after.deferred, calm_after.last, ?_, calm_after.plain⟩
    intro t inFront strips
    have waiting := (Mshr.promoteDeferredTargets_rebuilt promoted).waiting
    have waits : t ∈ left.waiting := by
      rw [Mshr.waiting, ← waiting]
      exact List.mem_append_left _ inFront
    exact absurd (Mshr.strips_source strips) (stays t waits).2
  | squashed old _ waits _ popped =>
    exact Mshr.forceDeallocateTarget_calm popped (calm old waits)
  | snooped _ _ old _ waits _ handled =>
    exact Mshr.handleSnoop_calm handled (calm old waits)
  | pended _ old waits => exact (calm old waits).congr rfl rfl rfl rfl

theorem step_calm (cache : Cache R) (e : CacheEvent) (after : Cache R) (calm : cache.Calm)
    (heeded : cache.Heeded rp cfg e) (taken : cache.step rp cfg e = some after) : after.Calm := by
  obtain ⟨_, handled⟩ := step_some_iff.mp taken
  exact mshrChange_calm rp cfg (handle_mshrs handled) calm heeded

/-! ### One step -/

/-- A response that the temporary block takes gets the flag, and only such a one. -/
theorem fillStage_flag {filled : Cache R} {resp : Packet} {ref : Option BlkRef}
    {writebacks : List Packet}
    (ret : cache.fillStage rp cfg mshr pkt tick = .ok (ref, filled, writebacks, resp)) :
    (ref = some .temp → isFill mshr pkt = true ∧
      cache.tags.findBlock rp (pkt.line cfg.blkSize) = none ∧
      resp.noFillLower = true ∧ (filled.getBlk .temp).valid = true) ∧
    (ref ≠ some .temp → resp = pkt) ∧
    (isFill mshr pkt = true → cfg.cacheLevel = 2 → pkt.noFillLower = false) := by
  cases fillStage_cases ret with
  | filled _ fills last fill =>
    have outcome := handleFill_cases fill
    generalize cache.tags.findBlock rp (pkt.line cfg.blkSize) = found at *
    generalize cache.allocates cfg mshr pkt = allocate at *
    -- only a fill without a place in the tags goes to the temporary block
    cases outcome with
    | present | allocated =>
      refine ⟨fun temporary => ?_, fun _ => rfl, fun _ => last⟩
      cases temporary
    | temporary =>
      exact ⟨fun _ => ⟨fills, rfl, rfl, rfl⟩, fun other => absurd rfl other, fun _ => last⟩
  | passed other =>
    refine ⟨fun temporary => ?_, fun _ => rfl, fun fills => by simp [fills] at other⟩
    cases found : cache.tags.findBlock rp (pkt.line cfg.blkSize) <;>
      simp [found] at temporary

theorem promoteStage_valid {promoted : Mshr} {ref : BlkRef}
    (ret : promoteStage mshr pkt (some ref) cache = .ok (promoted, after)) :
    (after.getBlk ref).valid = (cache.getBlk ref).valid := by
  obtain ⟨⟨_, _⟩, first, ret⟩ := bind_ok_iff.mp ret
  obtain ⟨_, _, ret⟩ := bind_ok_iff.mp ret
  cases ret
  unfold readableStage at first
  split at first
  next usable =>
    obtain ⟨same, _⟩ := Option.filter_eq_some_iff.mp usable
    cases same
    obtain ⟨_, _, same⟩ := map_ok_iff.mp first
    cases same
    simp
  next =>
    cases first
    rfl

theorem access_flag {found : Access R} (ret : cache.access rp cfg pkt tick = .ok found) :
    found.pkt.noFillLower = pkt.noFillLower := by
  rcases access_pkt ret with
    same | ⟨_, start, after, ref, request⟩
  · rw [same]
  · exact (satisfyRequest_satisfies request).flag

theorem handleTimingReqMiss_up {place : Option Place}
    (ret : cache.handleTimingReqMiss cfg pkt place = .ok (after, sent)) :
    ∀ p ∈ sent.up, p = pkt.makeResponse := by
  obtain ⟨_, outcome⟩ := handleTimingReqMiss_cases ret
  cases outcome with
  | answered => simp
  | opened _ _ _ _ _ answer =>
    rw [answer]
    split <;> simp
  | _ => simp

theorem recvTimingReq_up (ret : cache.recvTimingReq rp cfg above pkt tick = .ok (after, sent)) :
    ∀ p ∈ sent.up, p.noFillLower = pkt.noFillLower := by
  obtain ⟨_, accessed, ret⟩ := bind_ok_iff.mp ret
  have flag := access_flag rp cfg accessed
  dsimp only at ret
  intro p mem
  split at ret
  · cases ret
    dsimp only at mem
    split at mem
    · obtain rfl := List.mem_singleton.mp mem
      exact flag
    · exact absurd mem List.not_mem_nil
  · rw [handleTimingReqMiss_up cfg ret p mem]
    exact flag

/-- A miss packet is new, or a copy without the flag. -/
theorem sendMSHRQueuePacket_down {pendingModifiedResp : Bool}
    (ret : cache.sendMSHRQueuePacket rp cfg above id pendingModifiedResp =
      .ok (after, sent)) : ∀ p ∈ sent.down, p.noFillLower = false := by
  obtain ⟨_, _, ret⟩ := bind_ok_iff.mp ret
  dsimp only at ret
  split at ret
  · cases ret
  · obtain ⟨⟨_, _⟩, made, ret⟩ := bind_ok_iff.mp ret
    cases ret
    intro _ mem
    obtain rfl := List.mem_singleton.mp mem
    rw [orFail_ok_iff, missPacket, Option.map_eq_some_iff] at made
    obtain ⟨_, _, made⟩ := made
    dsimp only at made
    -- a packet of the cache itself, or the target as it came from above, which has no flag
    split at made
    next new =>
      cases made
      unfold createMissPacket at new
      split at new <;> cases new
      rfl
    next =>
      cases made
      rfl

theorem answered_mem (answered : cache.answered id pkt = some mshr) :
    ∃ entry ∈ cache.mshrs, entry.mshr = mshr := by
  obtain ⟨entry, found, same⟩ := Option.bind_eq_some_iff.mp answered
  split at same
  · exact ⟨entry, (findId_mem found).1, Option.some.inj same⟩
  · cases same

/-- Requests that came without the flag are answered without it, when the
response has none. -/
theorem Response.unflagged {sent : List Packet}
    (r : Response rp cfg above cache id pkt tick after sent)
    (plain : ∀ t ∈ r.mshr.waiting, t.source ≠ .fromSnoop → t.pkt.noFillLower = false)
    (below : r.resp.noFillLower = false) : ∀ p ∈ sent, p.noFillLower = false := by
  obtain ⟨_, promotes⟩ := promoteStage_promotes r.promotes
  obtain ⟨ready, _, _⟩ := Mshr.extractServiceableTargets_some r.extracts
  obtain ⟨_, looped⟩ := serviceMSHRTargets_sent r.services
  refine serviceTargets_unflagged r.readied sent (fun t waits answered => ?_) below looped
  refine plain t ?_ ?_
  · rw [← promotes.waiting]
    rw [ready] at waits
    exact List.mem_append_left _ ((Mshr.serviced_sublist r.resp.cmd _).subset waits)
  · intro snoop
    simp [Target.answered, snoop] at answered

/-- The three parts of the property for one response. -/
theorem Response.propagated {sent : List Packet}
    (r : Response rp cfg above cache id pkt tick after sent) (calm : cache.Calm)
    (heeded : cache.Heeded rp cfg (.recvTimingResp id pkt tick above)) :
    (r.ref = some .temp → ∀ p ∈ sent, p.noFillLower = true) ∧
    (cfg.cacheLevel = 2 → r.ref ≠ some .temp → ∀ p ∈ sent, p.noFillLower = false) ∧
    (pkt.noFillLower = true → ∀ place, (after.tags.blk place).valid = true →
      (cache.tags.blk place).valid = true ∧
        (after.tags.blk place).key = (cache.tags.blk place).key) := by
  obtain ⟨entry, mem, mine⟩ := answered_mem r.answered
  have calm : r.mshr.Calm := mine ▸ calm entry mem
  obtain ⟨plain, absent⟩ := heeded r.mshr r.answered
  obtain ⟨temporary, other, last⟩ := fillStage_flag rp cfg r.fills
  obtain ⟨_, promotes⟩ := promoteStage_promotes r.promotes
  obtain ⟨ready, _, _⟩ := Mshr.extractServiceableTargets_some r.extracts
  have sublist : r.ready.list.Sublist r.promoted.targets.list := by
    rw [ready]
    exact Mshr.serviced_sublist r.resp.cmd _
  obtain ⟨_, looped⟩ := serviceMSHRTargets_sent r.services
  refine ⟨fun temp => ?_, fun level kept => ?_, fun flagged => ?_⟩
  · -- a fill into the temporary block flags the response, and every target gets the flag
    obtain ⟨fills, missing, flagged, valid⟩ := temporary temp
    have forward : r.promoted.isForward = false := by
      rw [promotes.isForward]
      simp only [isFill, Bool.and_eq_true, Bool.not_eq_true'] at fills
      exact fills.1
    have promoted := r.promotes
    rw [temp] at looped promoted
    have block := promoteStage_valid promoted
    have order := (promotes.ordered calm (absent fills missing).1).sublist sublist
    exact serviceTargets_flagged r.readied
      sent forward flagged order (.inl (block.trans valid)) looped
  · -- the second level does not fill from a flagged response
    have unflagged : r.resp.noFillLower = false := by
      rw [other kept]
      cases fills : isFill r.mshr pkt with
      | true => exact last fills level
      | false => exact plain level fills
    exact r.unflagged rp cfg calm.plain unflagged
  · -- a flagged response allocates nothing
    have filled : TagsKept r.ref cache.tags r.filled.tags := by
      cases fills : isFill r.mshr pkt with
      | true =>
        refine (fillStage_unallocated fills (fun missing => ?_) r.fills).1
        have unwanted := (absent fills missing).2 flagged
        unfold allocates
        split
        next whole =>
          simp only [Bool.and_eq_true] at whole
          exact Bool.eq_false_iff.mpr fun wants => unwanted ⟨whole.1, whole.2, wants⟩
        next => simp [allowFill, flagged]
      | false =>
        have ret := r.fills
        simp only [fillStage, fills, Bool.false_eq_true, if_false] at ret
        injection ret with ret
        injection ret with _ ret
        injection ret with same _
        rw [← same]
        exact .refl _ _
    exact (filled.trans r.tags).own

theorem heeded_propagated (cache : Cache R) (e : CacheEvent) (calm : cache.Calm)
    (heeded : cache.Heeded rp cfg e) : cache.Propagated rp cfg e := by
  cases e with
  | recvTimingReq =>
    intro _ _ ret p mem
    rw [recvTimingReq_up rp cfg ret p mem]
    exact heeded
  | recvTimingResp =>
    intro mshr _ _ _ answered fills ret
    obtain ⟨r⟩ := recvTimingResp_ok ret
    have mine : r.mshr = mshr := Option.some.inj (r.answered.symm.trans answered)
    have stage := r.fills
    rw [mine, fills] at stage
    cases stage
    exact r.propagated rp cfg calm heeded
  | sendMSHRQueuePacket =>
    intro _ _ ret
    exact sendMSHRQueuePacket_down rp cfg ret
  | _ => trivial

/-- In every run whose steps are `Heeded`, the denial of a fill reaches every
answer and nothing else carries it, and no response with the flag fills. -/
theorem fill_denial_propagates (repl : R) (events : List CacheEvent)
    (along : Runs.Along (step rp cfg) (Heeded rp cfg) (empty repl) events) :
    Runs.Along (step rp cfg) (Propagated rp cfg) (empty repl) events :=
  Runs.along_of_invariant (step_calm rp cfg) (heeded_propagated rp cfg)
    (empty repl) events (fun _ mem => absurd mem List.not_mem_nil) along

/-- A speculative read from above goes through the temporary block of the last
level. -/
def deniedRead : List CacheEvent :=
  [.recvTimingReq .noFillRead 0 fun _ => false,
   .sendMSHRQueuePacket 0 false fun _ => false,
   .recvTimingResp 0 { Packet.noFillRead with cmd := .readResp } 1 fun _ => false]

theorem deniedRead_propagates :
    Runs.Along (step oneBlock (.guarded 2)) (Propagated oneBlock (.guarded 2)) (empty ())
      deniedRead := by
  refine fill_denial_propagates oneBlock (.guarded 2) () deniedRead ?_
  refine Runs.along_cons rfl rfl (Runs.along_cons rfl trivial ?_)
  refine Runs.along_cons rfl (fun mshr answered => ⟨fun _ _ => rfl, fun _ _ => ?_⟩) trivial
  obtain rfl := Option.some.inj (Eq.trans (Eq.symm rfl) answered)
  exact ⟨by unfold Undropped; decide, fun _ wants => absurd wants.1 (by decide)⟩

/-- A level-one cache with a write allocator. -/
def allocating : CacheParams := { CacheParams.guarded 1 with hasWriteAllocator := true }

/-- The invalidation a speculative store of a whole line sends down. -/
def lineInvalidation : Packet := Packet.ofBlock Packet.noFillReq .invalidateReq 0 64

def deniedInvalidation : Packet :=
  { lineInvalidation with cmd := .invalidateResp, noFillLower := true }

/-- At the last level the invalidation joins the read of another cache. -/
def joinedInvalidation : List CacheEvent :=
  [.recvTimingReq .noFillRead 0 fun _ => false,
   .recvTimingReq lineInvalidation 1 fun _ => false,
   .sendMSHRQueuePacket 0 false fun _ => false]

def exclusiveResponse : CacheEvent :=
  .recvTimingResp 0 { Packet.noFillRead with cmd := .readExResp } 2 fun _ => false

/-- The store in its own cache, answered by the last level. -/
def deniedStore : List CacheEvent :=
  [.recvTimingReq (.ofRequest Packet.noFillReq .writeReq 0 64) 0 fun _ => false,
   .sendMSHRQueuePacket 0 false fun _ => false,
   .recvTimingResp 0 deniedInvalidation 3 fun _ => false]

/-- The last level denies the fill, and the write allocator fills nevertheless. -/
theorem deniedStore_installs :
    ((Runs.run (step oneBlock (.guarded 2)) (empty ()) joinedInvalidation).any fun cache =>
      (cache.handle oneBlock (.guarded 2) exclusiveResponse).toOption.any fun out =>
        out.2.up.contains deniedInvalidation) = true ∧
    ¬ Runs.Along (step oneBlock allocating) (Propagated oneBlock allocating) (empty ())
      deniedStore := by
  refine ⟨by decide, fun kept => ?_⟩
  have last := kept.2 _ rfl |>.2 _ rfl |>.1
  obtain ⟨_, _, own⟩ := last _ _ _ _ rfl rfl rfl
  exact absurd (own rfl ⟨0, 0⟩ rfl).1 (by decide)

end Cache

end RasCache.Mem
