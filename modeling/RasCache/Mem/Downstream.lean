import RasCache.Mem.TargetBound
import RasCache.Mem.WriteBuffer

/-!
# What a cache sends down

The packets that leave a cache on the memory side come from two queues. A miss
packet is about the line of its MSHR, asks for a response and is marked as a
cache's own, unless it is uncacheable. A packet of the write buffer asks for no
response, unless it is uncacheable.
-/
namespace RasCache.Mem

open Outcomes

variable {R : Type}

/-! ### The requests that wait in an MSHR -/

variable {e : CacheEvent} {cmd : MemCmd}

namespace Mshr

/-- The targets that are no snoops satisfy `P`. -/
def Asks (P : Packet → Prop) (mshr : Mshr) : Prop :=
  ∀ t ∈ mshr.waiting, t.source ≠ .fromSnoop → P t.pkt

variable {P : Packet → Prop} {before after mshr : Mshr} {pkt : Packet} {blkSize : Nat}

theorem Asks.of_subset (asks : before.Asks P) (fewer : ∀ t ∈ after.waiting, t ∈ before.waiting) :
    after.Asks P :=
  fun t mem request => asks t (fewer t mem) request

theorem Asks.of_lists (asks : before.Asks P) (targets : after.targets.list = before.targets.list)
    (deferred : after.deferredTargets.list = before.deferredTargets.list) : after.Asks P := by
  refine asks.of_subset fun t mem => ?_
  unfold waiting at mem ⊢
  rwa [targets, deferred] at mem

theorem allocateMissBuffer_asks (blkSize : Nat) (order : Nat) (allocOnFill clearNoFill : Bool)
    (holds : P pkt) : (allocateMissBuffer blkSize pkt order allocOnFill clearNoFill).Asks P := by
  have first : (allocate (Packet.blkAlign pkt.addr blkSize) blkSize pkt order allocOnFill).Asks
      P := by
    exact List.forall_mem_singleton.mpr fun _ => holds
  unfold allocateMissBuffer
  dsimp only
  split
  · exact first.of_lists (updateMayNotFill_lists _ _) rfl
  · exact first

section Replacing

variable {P : Packet → Prop} (closed : ∀ pkt, P pkt → P (replaceUpgrade pkt))
include closed

variable {mshr : Mshr}

theorem Asks.added (asks : mshr.Asks P) (pkt : Packet) (order : Nat) (allocOnFill : Bool)
    (holds : P pkt) (added : mshr.allocateTarget pkt order allocOnFill = some after) :
      after.Asks P := by
  cases allocateTarget_cases added with
  | deferred =>
    intro t mem request
    rcases List.mem_append.mp mem with old | deferred
    · exact asks t (List.mem_append_left _ old) request
    · rcases List.mem_append.mp deferred with old | new
      · exact asks t (List.mem_append_right _ old) request
      · obtain rfl := List.mem_singleton.mp new
        -- a deferred upgrade may have become a request for the line
        dsimp only
        split
        · exact closed pkt holds
        · exact holds
  | joined =>
    obtain ⟨targets, deferred⟩ := List.forall_mem_append.mp asks
    exact List.forall_mem_append.mpr ⟨List.forall_mem_append.mpr
      ⟨targets, List.forall_mem_singleton.mpr fun _ => holds⟩, deferred⟩

/-- Replacing upgrades changes packets, but not who sent them. -/
theorem replaceUpgrades_asks {l : TargetList} {t : Target}
    (asks : ∀ u ∈ l.list, u.source ≠ .fromSnoop → P u.pkt) (mem : t ∈ l.replaceUpgrades.list)
    (request : t.source ≠ .fromSnoop) : P t.pkt := by
  unfold TargetList.replaceUpgrades at mem
  split at mem
  · obtain ⟨u, waits, rfl⟩ := List.mem_map.mp mem
    exact closed u.pkt (asks u waits request)
  · exact asks t mem request

theorem Asks.replacedTargets (asks : mshr.Asks P) :
    ({ mshr with targets := mshr.targets.replaceUpgrades } : Mshr).Asks P := by
  obtain ⟨targets, deferred⟩ := List.forall_mem_append.mp asks
  exact List.forall_mem_append.mpr ⟨fun t => replaceUpgrades_asks closed targets, deferred⟩

theorem Asks.replacedDeferred (asks : mshr.Asks P) :
    ({ mshr with deferredTargets := mshr.deferredTargets.replaceUpgrades } : Mshr).Asks P := by
  obtain ⟨targets, deferred⟩ := List.forall_mem_append.mp asks
  exact List.forall_mem_append.mpr ⟨targets, fun t => replaceUpgrades_asks closed deferred⟩

theorem Asks.snooped (asks : mshr.Asks P) (pkt : Packet) (order : Nat) (result : SnoopResult)
    (handled : mshr.handleSnoop pkt order = some result) : result.mshr.Asks P := by
  have start : (mshr.withoutUpgrades pkt).Asks P := by
    rcases withoutUpgrades_cases mshr pkt with same | replaced
    · rw [same]
      exact asks
    · rw [replaced]
      exact asks.replacedDeferred closed
  cases handleSnoop_cases handled with
  | replaced => exact (asks.replacedTargets closed).replacedDeferred closed
  | ignored => exact asks
  | due => exact start
  | saved =>
    -- the target that is added is a snoop
    unfold snoopInService saveSnoop
    dsimp only
    split
    · obtain ⟨targets, deferred⟩ := List.forall_mem_append.mp start
      exact List.forall_mem_append.mpr ⟨List.forall_mem_append.mpr
        ⟨targets, List.forall_mem_singleton.mpr fun request => absurd rfl request⟩, deferred⟩
    · exact start.of_lists rfl rfl

end Replacing

variable {moved : List Target} {ready : TargetList} {serviced left : Mshr} {order : Nat}

theorem retired_subset (promotes : Cache.Promotes mshr serviced moved)
    (extracts : serviced.extractServiceableTargets cmd = some (ready, left))
    (promoted : left.promoteDeferredTargets = some after) (t : Target) (mem : t ∈ after.waiting) :
    t ∈ mshr.waiting := by
  have left_of : t ∈ left.waiting := by
    rw [(promoteDeferredTargets_rebuilt promoted).waiting] at mem
    exact mem
  have served : t ∈ serviced.waiting := by
    obtain ⟨_, behind, same⟩ := extractServiceableTargets_some extracts
    unfold waiting at left_of
    rw [behind, same] at left_of
    rcases List.mem_append.mp left_of with stays | deferred
    · exact List.mem_append_left _ (leftBehind_mem stays).1
    · exact List.mem_append_right _ deferred
  rwa [promotes.waiting] at served

theorem popped_subset (popped : mshr.forceDeallocateTarget = some (some after)) (t : Target)
    (mem : t ∈ after.waiting) : t ∈ mshr.waiting := by
  obtain ⟨front, rest, targets, outcome⟩ := forceDeallocateTarget_cases popped
  have fewer : ∀ t ∈ rest ++ mshr.deferredTargets.list, t ∈ mshr.waiting := by
    intro _ mem
    unfold waiting
    rw [targets]
    exact List.mem_cons_of_mem front mem
  rcases outcome with ⟨rfl, promoted⟩ | ⟨_, rfl⟩
  · rw [(promoteDeferredTargets_rebuilt promoted).waiting] at mem
    exact fewer t mem
  · exact fewer t mem

theorem Asks.retired (asks : mshr.Asks P) (promotes : Cache.Promotes mshr serviced moved)
    (extracts : serviced.extractServiceableTargets cmd = some (ready, left))
    (promoted : left.promoteDeferredTargets = some after) : after.Asks P :=
  asks.of_subset (retired_subset promotes extracts promoted)

theorem Asks.popped (asks : mshr.Asks P) (popped : mshr.forceDeallocateTarget = some (some after)) :
    after.Asks P :=
  asks.of_subset (popped_subset popped)

/-- The request is about the line of the MSHR, and uncacheable if the MSHR is. -/
structure Suits (blkSize : Nat) (mshr : Mshr) (pkt : Packet) : Prop where
  line : pkt.line blkSize = mshr.key
  request : pkt.isRequest = true
  uncacheable : mshr.uncacheable = true → pkt.req.flags.uncacheable = true

theorem Suits.replaced (pkt : Packet) (suits : mshr.Suits blkSize pkt) :
    mshr.Suits blkSize (replaceUpgrade pkt) := by
  obtain ⟨line, request, uncacheable⟩ := suits
  unfold replaceUpgrade
  split
  · exact ⟨line, rfl, uncacheable⟩
  · exact ⟨line, rfl, uncacheable⟩
  · exact ⟨line, rfl, uncacheable⟩
  · exact ⟨line, request, uncacheable⟩

theorem Suits.congr (same : Cache.SameLine before after) (suits : before.Suits blkSize pkt) :
    after.Suits blkSize pkt := by
  refine ⟨suits.line.trans same.key.symm, suits.request, fun uncacheable => ?_⟩
  exact suits.uncacheable (same.uncacheable.symm.trans uncacheable)

/-- Snoops apart, an MSHR collects requests that suit it. -/
def Fits (blkSize : Nat) (mshr : Mshr) : Prop := mshr.Asks (mshr.Suits blkSize)

theorem Fits.of_asks (same : Cache.SameLine before after)
    (asks : after.Asks (before.Suits blkSize)) : after.Fits blkSize :=
  fun t mem request => (asks t mem request).congr same

theorem Fits.of_lists (fits : before.Fits blkSize) (same : Cache.SameLine before after)
    (targets : after.targets.list = before.targets.list)
    (deferred : after.deferredTargets.list = before.deferredTargets.list) : after.Fits blkSize :=
  .of_asks same (Asks.of_lists fits targets deferred)

theorem handleSnoop_inService {result : SnoopResult}
    (handled : mshr.handleSnoop pkt order = some result) :
    result.mshr.inService = mshr.inService := by
  cases handleSnoop_cases handled with
  | replaced => rfl
  | ignored => rfl
  | due => exact withoutUpgrades_inService mshr pkt
  | saved =>
    rw [← withoutUpgrades_inService mshr pkt]
    unfold snoopInService saveSnoop
    dsimp only
    split <;> rfl

theorem allocateTarget_inService {allocOnFill : Bool}
    (added : mshr.allocateTarget pkt order allocOnFill = some after) :
    after.inService = mshr.inService := by
  cases allocateTarget_cases added with
  | deferred => rfl
  | joined => rfl

end Mshr

namespace Cache

variable {rp : ReplacementPolicy R} {cfg : CacheParams}

variable (cfg) in
/-- The targets of every MSHR stand in line and suit it. -/
structure Fitted (cache : Cache R) : Prop where
  lined : ∀ entry ∈ cache.mshrs, entry.mshr.Lined
  fits : ∀ entry ∈ cache.mshrs, entry.mshr.Fits cfg.blkSize

theorem empty_fitted (repl : R) : (Cache.empty repl).Fitted cfg := by
  constructor <;> intro entry mem <;> cases mem

variable {cache after : Cache R} {pkt : Packet} {sent : Sent} {entry : MshrEntry}

theorem recvTimingReq_isRequest {tick : Nat} {above : Packet → Bool}
    (ret : cache.recvTimingReq rp cfg above pkt tick = .ok (after, sent)) :
    pkt.isRequest = true := by
  obtain ⟨_, accessed, _⟩ := bind_ok_iff.mp ret
  unfold access at accessed
  dsimp only at accessed
  split at accessed
  · cases accessed
  next request => simpa using request

theorem findMshr_cacheable {key : LineKey} (found : cache.findMshr key = some entry) :
    entry.mshr.uncacheable = false := by
  have seen := List.find?_some found
  simp only [Bool.and_eq_true, Bool.not_eq_true'] at seen
  exact seen.1

theorem handle_fitted (fitted : cache.Fitted cfg)
    (handled : cache.handle rp cfg e = .ok (after, sent)) : after.Fitted cfg := by
  refine ⟨fun entry mem =>
    (Limited.handle_entries fitted.lined handled entry mem).1, ?_⟩
  intro entry mem
  have fits := fitted.fits
  -- a new MSHR has the line of its packet, which is its one target
  have opened (pkt : Packet) (clearNoFill : Bool) (request : pkt.isRequest = true) :
      (Mshr.allocateMissBuffer cfg.blkSize pkt cache.order (cfg.allocOnFill pkt.cmd)
        clearNoFill).Fits cfg.blkSize := by
    refine Mshr.allocateMissBuffer_asks _ _ _ _ ⟨?_, request, fun uncacheable => ?_⟩
    · exact (Mshr.allocateMissBuffer_key ..).symm
    · cases clearNoFill <;> exact uncacheable
  have change := handle_mshrs handled
  cases change.entries entry mem with
  | untouched _ _ waits => exact fits entry waits
  | missed _ _ _ pkt clearNoFill carries =>
    have request := recvTimingReq_isRequest handled
    refine opened pkt clearNoFill ?_
    rcases carries with rfl | rfl <;> exact request
  | fetched => exact opened _ true rfl
  | coalesced req _ _ old _ waits hit added =>
    have request := recvTimingReq_isRequest handled
    -- a request finds a cacheable MSHR of its own line, so it suits the targets there
    have visible := findMshr_cacheable hit
    have suits : old.mshr.Suits cfg.blkSize req :=
      ⟨(findMshr_key hit).symm, request, fun hidden => by simp [visible] at hidden⟩
    refine .of_asks (Mshr.allocateTarget_line added) ?_
    exact (fits old waits).added Mshr.Suits.replaced req _ _ suits added
  | sent _ _ old _ waits =>
    exact (fits old waits).of_lists ⟨rfl, rfl⟩ rfl rfl
  | granted _ old waits =>
    exact (fits old waits).of_lists (Mshr.updateMayNotFill_line old.mshr false)
      (Mshr.updateMayNotFill_lists _ _) rfl
  | retired _ _ _ old _ _ _ _ _ _ waits promotes extracts promoted =>
    have asks := (fits old waits).retired promotes extracts promoted
    exact .of_asks (Mshr.retired_line promotes extracts promoted) (asks.of_lists rfl rfl)
  | squashed old _ waits _ popped =>
    exact .of_asks (Mshr.forceDeallocateTarget_line popped) ((fits old waits).popped popped)
  | snooped pkt _ old result waits _ snoop =>
    exact .of_asks (Mshr.handleSnoop_line snoop)
      ((fits old waits).snooped Mshr.Suits.replaced pkt _ result snoop)
  | pended _ old waits => exact (fits old waits).of_lists ⟨rfl, rfl⟩ rfl rfl

/-! ### The packet of a miss -/

/-- The commands a cache forwards or makes for a cacheable miss. -/
theorem asks_as_cache (request : cmd.has .isRequest = true)
    (forwarded : cmd.has .isUpgrade = true ∨ cmd = .invalidateReq ∨ cmd.has .isClean = true) :
    cmd.has .fromCache = true ∧ cmd.has .needsResponse = true := by
  revert request forwarded
  cases cmd <;> decide

variable (cfg) in
/-- The packet an idle MSHR sends is about its line. It comes from a cache and
asks for a response, unless it is uncacheable. -/
structure Asks (mshr : Mshr) (pkt : Packet) : Prop where
  line : pkt.line cfg.blkSize = mshr.key
  uncacheable : mshr.uncacheable = true → pkt.req.flags.uncacheable = true
  fromCache : pkt.req.flags.uncacheable = false → pkt.fromCache = true
  needsResponse : pkt.req.flags.uncacheable = false → pkt.needsResponse = true

variable {mshr : Mshr}

theorem Asks.cacheable {cfg : CacheParams} (asks : Asks cfg mshr pkt)
    (cacheable : pkt.req.flags.uncacheable = false) : mshr.uncacheable = false := by
  cases hidden : mshr.uncacheable with
  | false => rfl
  | true =>
    rw [asks.uncacheable hidden] at cacheable
    cases cacheable

theorem missPacket_asks {isForward : Bool} (lined : mshr.Lined) (fits : mshr.Fits cfg.blkSize)
    (made : cache.missPacket rp cfg mshr = some (pkt, isForward)) : Asks cfg mshr pkt := by
  obtain ⟨front, first, made⟩ := Option.map_eq_some_iff.mp made
  -- the first target of an MSHR is never a snoop
  have request : front.source ≠ .fromSnoop := by
    intro snoop
    apply lined.front
    rw [List.head?_map, first, Option.map_some, snoop]
  have suits := fits front (List.mem_append_left _ (List.mem_of_mem_head? first)) request
  dsimp only at made
  split at made
  next create =>
    cases made
    unfold createMissPacket at create
    split at create
    · cases create
    · -- every command that is made up here is a cache's and asks for a response
      cases create
      refine ⟨?_, suits.uncacheable, fun _ => ?_, fun _ => ?_⟩
      · -- the packet for the whole block is about the line of the request
        rw [← suits.line]
        simp only [Packet.line, Packet.ofBlock, Packet.ofRequest, Packet.blkAlign_idem]
        rfl
      · simp only [Packet.fromCache, Packet.ofBlock, Packet.ofRequest]
        split_ifs <;> rfl
      · simp only [Packet.needsResponse, Packet.ofBlock, Packet.ofRequest]
        split_ifs <;> rfl
  next forward =>
    cases made
    have asks (cacheable : front.pkt.req.flags.uncacheable = false) :
        front.pkt.cmd.has .fromCache = true ∧ front.pkt.cmd.has .needsResponse = true := by
      refine asks_as_cache suits.request ?_
      unfold createMissPacket at forward
      split at forward
      next why =>
        simp only [cacheable, Bool.false_or, Bool.or_eq_true, Bool.and_eq_true,
          decide_eq_true_eq] at why
        rcases why with (⟨_, upgrade⟩ | invalidate) | clean
        · exact .inl upgrade
        · exact .inr (.inl invalidate)
        · exact .inr (.inr clean)
      next => cases forward
    exact ⟨suits.line, suits.uncacheable, fun cacheable => (asks cacheable).1,
      fun cacheable => (asks cacheable).2⟩

/-! ### Requests that are out -/

theorem squashPrefetch_idle (ordered : cache.Ordered) (mem : entry ∈ cache.mshrs)
    (squashed : cache.squashPrefetch entry.id = .ok after) : entry.mshr.inService = false := by
  obtain ⟨_, found, squashed⟩ := bind_ok_iff.mp squashed
  obtain ⟨_, _, squashed⟩ := bind_ok_iff.mp squashed
  rw [orFail_ok_iff, ordered.findId entry mem] at found
  cases found
  split at squashed
  · cases squashed
  next idle =>
    rw [Bool.or_eq_true, not_or] at idle
    simpa using idle.1

theorem inService_rule (start : Mshr) :
    StayRule fun mshr => mshr.inService = true ∧ SameLine start mshr where
  added := by
    rintro mshr after pkt order allocOnFill ⟨busy, line⟩ added
    rw [Mshr.allocateTarget_inService added]
    exact ⟨busy, line.trans (Mshr.allocateTarget_line added)⟩
  sent := fun mshr isForward pendingModifiedResp holds => ⟨rfl, holds.2.key, holds.2.uncacheable⟩
  granted := fun mshr holds => ⟨holds.1, holds.2.trans (Mshr.updateMayNotFill_line mshr false)⟩
  snooped := by
    rintro mshr pkt order result ⟨busy, line⟩ snooped
    rw [Mshr.handleSnoop_inService snooped]
    exact ⟨busy, line.trans (Mshr.handleSnoop_line snooped)⟩
  pended := fun mshr downstreamPending holds => ⟨holds.1, holds.2.key, holds.2.uncacheable⟩

theorem handle_inService (ordered : cache.Ordered)
    (handled : cache.handle rp cfg e = .ok (after, sent)) (mem : entry ∈ cache.mshrs)
    (busy : entry.mshr.inService = true) (other : responds e ≠ some entry.id) :
    ∃ now ∈ after.mshrs, now.id = entry.id ∧ now.mshr.inService = true ∧
      SameLine entry.mshr now.mshr := by
  have change := handle_mshrs handled
  refine (inService_rule entry.mshr).stays change ordered entry mem ⟨busy, rfl, rfl⟩ other ?_
  rintro rfl
  obtain ⟨_, squashed, _⟩ := map_ok_iff.mp handled
  rw [squashPrefetch_idle ordered mem squashed] at busy
  cases busy

end Cache

/-! ### The packets of the write buffer -/

/-- The packet asks for no response, or is uncacheable. -/
def Packet.Silent (pkt : Packet) : Prop :=
  pkt.req.flags.uncacheable = true ∨ pkt.needsResponse = false

namespace Cache

variable {rp : ReplacementPolicy R} {cfg : CacheParams}

def Mute (cache : Cache R) : Prop := ∀ pkt ∈ cache.writeBuffer, pkt.Silent

theorem silent_of_eviction {pkt : Packet} (evicts : pkt.cmd = .writeClean ∨ pkt.isEviction = true) :
    pkt.Silent := by
  right
  rcases evicts with clean | evicts
  · rw [Packet.needsResponse, clean]
    rfl
  · unfold Packet.needsResponse Packet.isEviction at *
    revert evicts
    cases pkt.cmd <;> decide

theorem silent_rule : WriteRule cfg Packet.Silent where
  evicted blk _ := silent_of_eviction (.inr (evictionPacket_isEviction cfg blk))
  cleaned _ _ := silent_of_eviction (.inl rfl)
  marked _ _ _ holds := holds

variable {cache after : Cache R} {sent : Sent}

theorem handle_mute (mute : cache.Mute)
    (handled : cache.handle rp cfg e = .ok (after, sent)) : after.Mute := by
  refine Writes.handled (silent_rule) mute e sent ?_ handled
  intro _ _ _ _ passes
  rcases passes with uncacheable | evicts
  · exact .inl uncacheable
  · exact silent_of_eviction evicts

variable (cfg) in
/-- What every step keeps of the two queues. -/
structure Queues (cache : Cache R) : Prop where
  ordered : cache.Ordered
  single : cache.OneEach
  fitted : cache.Fitted cfg
  mute : cache.Mute

theorem empty_queues (repl : R) : (Cache.empty repl).Queues cfg :=
  ⟨empty_ordered repl, empty_oneEach repl, empty_fitted repl, empty_writes repl⟩

theorem handle_queues (queues : cache.Queues cfg)
    (handled : cache.handle rp cfg e = .ok (after, sent)) : after.Queues cfg  where
  ordered := handle_ordered queues.ordered handled
  single := handle_oneEach queues.single handled
  fitted := handle_fitted queues.fitted handled
  mute := handle_mute queues.mute handled

end Cache

end RasCache.Mem
