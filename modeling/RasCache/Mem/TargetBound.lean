import RasCache.Mem.Queue
import RasCache.Mem.TargetOrder

/-!
# The bound on the targets of an MSHR

A cache stops accepting requests when a request brings the targets of an MSHR to
`tgts_per_mshr`, and goes on when that MSHR gets its response. Snoops that are
kept as targets count as well, but neither they nor the first target of an MSHR
are tested. This module says when the bound holds for the targets of the CPU
side.
-/
namespace RasCache.Mem

open Outcomes

/-! ### Counting the targets of one MSHR -/

def TargetName.isSnoop (name : TargetName) : Bool := decide (name.2 = .fromSnoop)

namespace Mshr

/-- `getNumTargets`. -/
def numTargets (mshr : Mshr) : Nat := mshr.targets.list.length + mshr.deferredTargets.list.length

def cpuTargets (mshr : Mshr) : Nat := mshr.names.countP TargetName.isCPU

def snoopTargets (mshr : Mshr) : Nat := mshr.names.countP TargetName.isSnoop

theorem numTargets_names (mshr : Mshr) : mshr.numTargets = mshr.names.length := by
  simp [numTargets, names, waiting]

theorem cpu_add_snoop_le (mshr : Mshr) : mshr.cpuTargets + mshr.snoopTargets ≤ mshr.numTargets := by
  rw [numTargets_names, cpuTargets, snoopTargets]
  induction mshr.names with
  | nil => simp
  | cons name _ ih =>
    obtain ⟨_, source⟩ := name
    cases source <;> simp [TargetName.isCPU, TargetName.isSnoop] at ih ⊢ <;> omega

variable {accepted handed : List TargetName}

/-- What an operation hands out and leaves is what it found and accepted. -/
theorem count_passes {before after : List TargetName}
    (passes : Passes before accepted handed after) (p : TargetName → Bool) :
    handed.countP p + after.countP p = before.countP p + accepted.countP p := by
  have same := passes.perm.countP_eq p
  rwa [List.countP_append, List.countP_append] at same

theorem length_passes {before after : List TargetName}
    (passes : Passes before accepted handed after) :
    handed.length + after.length = before.length + accepted.length := by
  have same := passes.perm.length_eq
  rwa [List.length_append, List.length_append] at same

variable {mshr after before left : Mshr} {pkt : Packet} {order : Nat} {moved : List Target}
  {cmd : MemCmd} {ready : TargetList} {result : SnoopResult} {allocOnFill : Bool}

theorem allocateTarget_counts (allocated : mshr.allocateTarget pkt order allocOnFill = some after) :
    after.numTargets = mshr.numTargets + 1 ∧ after.cpuTargets = mshr.cpuTargets + 1 ∧
      after.snoopTargets = mshr.snoopTargets := by
  have names := allocateTarget_names allocated
  simp [numTargets_names, cpuTargets, snoopTargets, names, TargetName.isCPU, TargetName.isSnoop]

theorem handleSnoop_counts (handled : mshr.handleSnoop pkt order = some result) :
    result.mshr.numTargets = mshr.numTargets + (if mshr.keepsSnoop pkt then 1 else 0) ∧
      result.mshr.cpuTargets = mshr.cpuTargets ∧
      result.mshr.snoopTargets = mshr.snoopTargets + (if mshr.keepsSnoop pkt then 1 else 0) := by
  have passes := handleSnoop_passes handled
  have length := length_passes passes
  have cpu := count_passes passes TargetName.isCPU
  have snoop := count_passes passes TargetName.isSnoop
  rw [numTargets_names, numTargets_names, cpuTargets, cpuTargets, snoopTargets, snoopTargets]
  cases kept : mshr.keepsSnoop pkt <;>
    simp [kept, TargetName.isCPU, TargetName.isSnoop] at length cpu snoop ⊢ <;> omega

theorem promotes_names (promotes : Cache.Promotes before after moved) :
    after.names = before.names := by
  rw [names_append, names_append, promotes.targets, promotes.deferred]
  simp

/-- Snoops stand only among the targets of a request that is out, and never
first. -/
structure Lined (mshr : Mshr) : Prop where
  deferred : .fromSnoop ∉ mshr.deferredTargets.list.map Target.source
  idle : mshr.inService = false → .fromSnoop ∉ mshr.targets.list.map Target.source
  front : (mshr.targets.list.map Target.source).head? ≠ some .fromSnoop
  waits : mshr.targets.list.map Target.source ≠ []

theorem lined_of_sources (kept : before.Lined)
    (targets : after.targets.list.map Target.source = before.targets.list.map Target.source)
    (deferred : after.deferredTargets.list.map Target.source =
      before.deferredTargets.list.map Target.source)
    (serving : after.inService = false → before.inService = false) : after.Lined := by
  constructor
  · rw [deferred]
    exact kept.deferred
  · intro idle
    rw [targets]
    exact kept.idle (serving idle)
  · rw [targets]
    exact kept.front
  · rw [targets]
    exact kept.waits

variable (targets : .fromSnoop ∉ mshr.targets.list.map Target.source)
  (deferred : .fromSnoop ∉ mshr.deferredTargets.list.map Target.source)

include targets deferred in
/-- Requests only, and at least one of them to send. -/
theorem lined_of_requests (waits : mshr.targets.list.map Target.source ≠ []) : mshr.Lined := by
  refine ⟨deferred, fun _ => targets, ?_, waits⟩
  intro first
  exact targets (List.mem_of_mem_head? first)

theorem allocate_lined (blkAddr : Addr) (blkSize : Nat) (pkt : Packet) (order : Nat)
    (allocOnFill : Bool) : (allocate blkAddr blkSize pkt order allocOnFill).Lined := by
  have source : (allocate blkAddr blkSize pkt order allocOnFill).targets.list.map Target.source =
      [if pkt.cmd = .hardPFReq then .fromPrefetcher else .fromCPU] := rfl
  apply lined_of_requests
  · rw [source]
    split <;> simp
  · simp [allocate, TargetList.init]
  · rw [source]
    simp

theorem Lined.add (kept : mshr.Lined) (t : Target) (request : t.source ≠ .fromSnoop) :
    ({ mshr with targets := mshr.targets.add mshr.blkSize t } : Mshr).Lined ∧
      ({ mshr with deferredTargets := mshr.deferredTargets.add mshr.blkSize t } : Mshr).Lined := by
  have other : Source.fromSnoop ≠ t.source := fun same => request same.symm
  constructor
  · constructor
    · exact kept.deferred
    · -- a new target comes last, so the first stays the first
      intro idle
      have before := kept.idle idle
      simp only [TargetList.add, List.map_append, List.map_singleton, List.mem_append,
        List.mem_singleton, not_or]
      exact ⟨before, other⟩
    · simp only [TargetList.add, List.map_append]
      rw [List.head?_append_of_ne_nil _ kept.waits]
      exact kept.front
    · simp [TargetList.add]
  · constructor
    · simp only [TargetList.add, List.map_append, List.map_singleton, List.mem_append,
        List.mem_singleton, not_or]
      exact ⟨kept.deferred, other⟩
    · exact kept.idle
    · exact kept.front
    · exact kept.waits

theorem allocateTarget_lined (kept : mshr.Lined)
    (allocated : mshr.allocateTarget pkt order allocOnFill = some after) : after.Lined := by
  cases allocateTarget_cases allocated with
  | deferred => exact (kept.add _ (by simp)).2
  | joined => exact (kept.add _ (by simp)).1

theorem replaceUpgrades_sources (l : TargetList) :
    l.replaceUpgrades.list.map Target.source = l.list.map Target.source := by
  unfold TargetList.replaceUpgrades
  split
  · simp [Function.comp_def]
  · rfl

/-- A snoop is kept behind the targets of a request that is out. -/
theorem snoopInService_lined (kept : mshr.Lined) (serving : mshr.inService = true) (pkt : Packet)
    (order : Nat) : (mshr.snoopInService pkt order).mshr.Lined := by
  by_cases saves : mshr.savesSnoop pkt = true
  · constructor
    · simpa [snoopInService, saveSnoop, saves] using kept.deferred
    · intro idle
      simp [snoopInService, saveSnoop, saves, serving] at idle
    · simp only [snoopInService, saveSnoop, saves, if_true, TargetList.add, List.map_append]
      rw [List.head?_append_of_ne_nil _ kept.waits]
      exact kept.front
    · simp [snoopInService, saveSnoop, saves, TargetList.add]
  · apply lined_of_sources kept
    · simp [snoopInService, saveSnoop, saves]
    · simp [snoopInService, saveSnoop, saves]
    · simp [snoopInService, saveSnoop, saves]

theorem handleSnoop_lined (kept : mshr.Lined) (handled : mshr.handleSnoop pkt order = some result) :
    result.mshr.Lined := by
  have base_lined : (mshr.withoutUpgrades pkt).Lined := by
    rcases withoutUpgrades_cases mshr pkt with same | replaced
    · rw [same]
      exact kept
    · rw [replaced]
      exact lined_of_sources kept rfl (replaceUpgrades_sources _) id
  cases handleSnoop_cases handled with
  | replaced =>
    exact lined_of_sources kept (replaceUpgrades_sources _) (replaceUpgrades_sources _) id
  | ignored => exact kept
  | due => exact base_lined
  | saved late =>
    apply snoopInService_lined base_lined
    rw [withoutUpgrades_inService]
    exact inService_of_late late

/-- Some target is sent again as long as one waits. -/
theorem promotable_pos {targets deferred : List Target} (waits : targets ++ deferred ≠ []) :
    targets ++ deferred.take (promotable targets deferred) ≠ [] := by
  cases targets with
  | cons => simp
  | nil =>
    cases deferred with
    | nil => simp at waits
    | cons first rest =>
      have one : 0 < promotable [] (first :: rest) := by
        simp only [promotable, List.isEmpty_nil, if_true]
        split
        · omega
        next request => simp [request]
      intro none
      simp only [List.nil_append, List.take_eq_nil_iff, reduceCtorEq, or_false] at none
      omega

include targets deferred in
theorem promoteDeferredTargets_lined (promoted : mshr.promoteDeferredTargets = some after)
    (inService : Bool) :
    ({ after with inService } : Mshr).Lined := by
  unfold promoteDeferredTargets at promoted
  split at promoted
  · cases promoted
  next waits =>
    cases promoted
    apply lined_of_requests
    · simp only [TargetList.populated, List.map_append, List.mem_append, not_or, List.map_take]
      exact ⟨targets, fun moved => deferred (List.mem_of_mem_take moved)⟩
    · simp only [TargetList.populated, List.map_drop]
      exact fun stays => deferred (List.mem_of_mem_drop stays)
    · have some_waits : mshr.targets.list ++ mshr.deferredTargets.list ≠ [] := by
        simpa [waiting] using waits
      simpa [TargetList.populated] using promotable_pos some_waits

theorem extractServiceableTargets_front
    (extracts : mshr.extractServiceableTargets cmd = some (ready, left)) {front : Target}
    (first : mshr.targets.list.head? = some front) : front ∈ ready.list := by
  obtain ⟨_, shape⟩ := List.head?_eq_some_iff.mp first
  rw [(extractServiceableTargets_some extracts).1, serviced, shape]
  split <;> exact List.mem_cons_self

theorem leftBehind_sources (cmd : MemCmd) (targets : List Target) :
    .fromSnoop ∉ (leftBehind cmd targets).map Target.source := by
  unfold leftBehind
  split
  · intro mem
    obtain ⟨_, kept, snoop⟩ := List.mem_map.mp mem
    have request := (List.mem_filter.mp kept).2
    simp [snoop] at request
  · simp

section Retired

variable {serviced : Mshr} (kept : mshr.Lined) (promotes : Cache.Promotes mshr serviced moved)
  (extracts : serviced.extractServiceableTargets cmd = some (ready, left))
  (promoted : left.promoteDeferredTargets = some after)

include kept promotes extracts promoted in
/-- A response takes the snoops and at least one request. What stays behind are
requests, one of them in front. -/
theorem retired_lined : ({ after with inService := false } : Mshr).Lined := by
  have requests : .fromSnoop ∉ serviced.deferredTargets.list.map Target.source := by
    intro snoop
    apply kept.deferred
    rw [promotes.deferred, List.map_append]
    exact List.mem_append_right _ snoop
  obtain ⟨_, behind, same⟩ := extractServiceableTargets_some extracts
  apply promoteDeferredTargets_lined _ _ promoted
  · rw [behind]
    exact leftBehind_sources cmd _
  · rw [same]
    exact requests

include targets deferred in
theorem snoopTargets_of_requests : mshr.snoopTargets = 0 := by
  have none : ∀ list : List Target, .fromSnoop ∉ list.map Target.source →
      (list.map Target.name).countP TargetName.isSnoop = 0 := by
    intro _ requests
    rw [List.countP_eq_zero]
    intro _ mem snoop
    obtain ⟨t, waits, rfl⟩ := List.mem_map.mp mem
    apply requests
    have source : t.source = .fromSnoop := of_decide_eq_true snoop
    exact List.mem_map.mpr ⟨t, waits, source⟩
  rw [snoopTargets, names_append, List.countP_append, none _ targets, none _ deferred]

include kept promotes extracts promoted in
/-- After a response fewer requests wait than before, and no snoops. -/
theorem retired_counts : after.numTargets + mshr.snoopTargets < mshr.numTargets ∧
    after.snoopTargets = 0 ∧ after.cpuTargets ≤ mshr.cpuTargets := by
  have lined := retired_lined kept promotes extracts promoted
  have snoops : after.snoopTargets = 0 := snoopTargets_of_requests (lined.idle rfl) lined.deferred
  have passes := extractServiceableTargets_passes extracts
  rw [promotes_names promotes] at passes
  have same : after.names = left.names := by
    have promoted_names := promoteDeferredTargets_names left
    rw [promoted] at promoted_names
    exact promoted_names
  have length := length_passes passes
  have cpu := count_passes passes TargetName.isCPU
  have snoop := count_passes passes TargetName.isSnoop
  -- the front target is a request, and it is serviced
  have first : (ready.list.map Target.name).countP TargetName.isSnoop <
      (ready.list.map Target.name).length := by
    apply Nat.lt_of_le_of_ne List.countP_le_length
    intro all
    rw [List.countP_eq_length] at all
    obtain ⟨t, _, shape⟩ := List.exists_cons_of_ne_nil
      (fun empty => kept.waits (by rw [empty, List.map_nil]) : mshr.targets.list ≠ [])
    have handed : t ∈ ready.list := by
      apply extractServiceableTargets_front extracts
      rw [promotes.targets, shape]
      rfl
    have snoop := all t.name (List.mem_map_of_mem handed)
    apply kept.front
    rw [shape]
    exact congrArg some (of_decide_eq_true snoop)
  rw [← same] at length cpu snoop
  simp only [snoopTargets, cpuTargets, numTargets_names] at snoops ⊢
  simp only [List.length_nil, List.countP_nil, Nat.add_zero] at length cpu snoop
  omega

end Retired

/-- A prefetch that is dropped was not sent, so no snoop waits with it. -/
theorem squashed_lined (kept : mshr.Lined) (idle : mshr.inService = false)
    (popped : mshr.forceDeallocateTarget = some (some after)) :
    after.Lined ∧ after.numTargets < mshr.numTargets ∧ after.cpuTargets ≤ mshr.cpuTargets ∧
      after.snoopTargets = mshr.snoopTargets := by
  have requests := kept.idle idle
  obtain ⟨front, rest, shape, outcome⟩ := forceDeallocateTarget_cases popped
  rw [shape, List.map_cons, List.mem_cons, not_or] at requests
  have names : mshr.names =
      front.name :: (rest.map Target.name ++ mshr.deferredTargets.list.map Target.name) := by
    rw [names_append, shape]
    rfl
  -- the front target is gone from the names whichever way the entry goes on
  have dropped (after : Mshr) (same : after.names =
        rest.map Target.name ++ mshr.deferredTargets.list.map Target.name)
      (snoops : after.snoopTargets = 0) :
      after.numTargets < mshr.numTargets ∧ after.cpuTargets ≤ mshr.cpuTargets ∧
        after.snoopTargets = mshr.snoopTargets := by
    have none : mshr.snoopTargets = 0 := snoopTargets_of_requests (kept.idle idle) kept.deferred
    rw [numTargets_names, numTargets_names, cpuTargets, cpuTargets, same, names, none, snoops]
    refine ⟨by simp, ?_, rfl⟩
    exact (List.sublist_cons_self _ _).countP_le
  rcases outcome with ⟨rfl, promoted⟩ | ⟨more, rfl⟩
  · have lined : ∀ inService, ({ after with inService } : Mshr).Lined := by
      apply promoteDeferredTargets_lined _ _ promoted
      · exact requests.2
      · exact kept.deferred
    have names_after := promoteDeferredTargets_names
      { mshr with targets := { mshr.targets with list := [] } }
    rw [promoted] at names_after
    refine ⟨lined after.inService, dropped after ?_ ?_⟩
    · exact names_after.trans (names_append _)
    · exact snoopTargets_of_requests ((lined false).idle rfl) (lined false).deferred
  · have some_waits : rest.map Target.source ≠ [] := by simpa using more
    have lined : ({ mshr with targets := { mshr.targets with list := rest } } : Mshr).Lined :=
      lined_of_requests requests.2 kept.deferred some_waits
    refine ⟨lined, dropped _ (names_append _) ?_⟩
    exact snoopTargets_of_requests requests.2 kept.deferred

theorem updateMayNotFill_lists (mshr : Mshr) (mayNotFill : Bool) :
    (mshr.updateMayNotFill mayNotFill).targets.list = mshr.targets.list := by
  simp only [updateMayNotFill, TargetList.updateMayNotFill]
  split <;> rfl

theorem counts_of_lists (targets : after.targets.list = before.targets.list)
    (deferred : after.deferredTargets.list = before.deferredTargets.list) :
    after.numTargets = before.numTargets ∧ after.cpuTargets = before.cpuTargets ∧
      after.snoopTargets = before.snoopTargets := by
  rw [numTargets_names, numTargets_names, cpuTargets, cpuTargets, snoopTargets, snoopTargets,
    names_of_lists targets deferred]
  exact ⟨rfl, rfl, rfl⟩

end Mshr

/-! ### The cache and its bound -/

variable {R : Type}

namespace Cache

variable (rp : ReplacementPolicy R) (cfg : CacheParams)

/-- The MSHR a request joins: it misses, and the MSHR of its line is not only
met by a prefetch or an eviction. -/
def joined (cache : Cache R) (pkt : Packet) (tick : Nat) : Option MshrEntry :=
  match cache.access rp cfg pkt tick with
  | .error _ => none
  | .ok found =>
    if found.satisfied || found.pkt.req.flags.uncacheable || found.pkt.isSWPrefetch ||
        found.pkt.cmd = .cleanEvict || found.pkt.cmd = .writeClean then none
    else found.cache.findMshr (found.pkt.line cfg.blkSize)

/-- What a request does to the MSHRs: it joins one, or opens one, or leaves them
as they are. -/
inductive Requested (cache : Cache R) (pkt : Packet) (tick : Nat) : List MshrEntry → Prop where
  | same (alone : cache.joined rp cfg pkt tick = none) :
    Requested cache pkt tick cache.mshrs
  | opened (req : Packet) (clearNoFill : Bool)
    (alone : cache.joined rp cfg pkt tick = none) :
    Requested cache pkt tick (cache.allocateMissBuffer cfg req clearNoFill).mshrs
  | joins (entry : MshrEntry) (mshr : Mshr) (waits : entry ∈ cache.mshrs)
    (joined : cache.joined rp cfg pkt tick = some entry)
    (added : entry.mshr.allocateTarget pkt cache.order (cfg.allocOnFill pkt.cmd) = some mshr) :
    Requested cache pkt tick (cache.setMshr entry.id mshr).mshrs

variable {above : Packet → Bool} {pkt : Packet} {tick : Nat} {after : Cache R} {sent : Sent}

variable {rp cfg} in
theorem recvTimingReq_requested {cache : Cache R}
    (ret : cache.recvTimingReq rp cfg above pkt tick = .ok (after, sent)) :
    Requested rp cfg cache pkt tick after.mshrs := by
  obtain ⟨found, accessed, ret⟩ := bind_ok_iff.mp ret
  have kept := access_queue accessed
  have same : (found.cache.doWritebacks above found.writebacks).mshrs = cache.mshrs := kept.mshrs
  dsimp only at ret
  split at ret
  next satisfied =>
    cases ret
    rw [same]
    apply Requested.same
    simp [joined, accessed, satisfied]
  next missed =>
    have missed : found.satisfied = false := by simpa using missed
    have carried := access_missed missed accessed
    obtain ⟨wa, outcome⟩ := handleTimingReqMiss_cases ret
    have asked : cache.joined rp cfg pkt tick =
        if found.pkt.req.flags.uncacheable || found.pkt.isSWPrefetch ||
            found.pkt.cmd = .cleanEvict || found.pkt.cmd = .writeClean then none
        else found.cache.findMshr (found.pkt.line cfg.blkSize) := by
      simp [joined, accessed, missed]
    have queue : QueueKept cache (found.cache.doWritebacks above found.writebacks) :=
      kept.trans ⟨rfl, rfl⟩
    generalize found.cache.doWritebacks above found.writebacks = start at same outcome queue
    have lookup : found.cache.findMshr (found.pkt.line cfg.blkSize) =
        start.findMshr (found.pkt.line cfg.blkSize) := by
      rw [findMshr, findMshr, queue.mshrs, kept.mshrs]
    -- in each of these cases the request joins no MSHR
    have none_joined (why : found.pkt.req.flags.uncacheable = true ∨
        found.pkt.isSWPrefetch = true ∨ found.pkt.cmd = .cleanEvict ∨ found.pkt.cmd = .writeClean ∨
        start.findMshr (found.pkt.line cfg.blkSize) = none) :
        cache.joined rp cfg pkt tick = none := by
      rw [asked, lookup]
      rcases why with why | why | why | why | why <;> simp [why]
    cases outcome with
    | pushed direct =>
      change Requested rp cfg cache pkt tick start.mshrs
      rw [same]
      apply Requested.same
      apply none_joined
      rcases direct with uncacheable | clean | ⟨_, free⟩
      · exact .inl uncacheable
      · exact .inr (.inr (.inr (.inl clean)))
      · exact .inr (.inr (.inr (.inr free)))
    | ignored evict =>
      change Requested rp cfg cache pkt tick start.mshrs
      rw [same]
      exact .same (none_joined (.inr (.inr (.inl evict))))
    | answered soft =>
      change Requested rp cfg cache pkt tick start.mshrs
      rw [same]
      exact .same (none_joined (.inr (.inl soft)))
    | fetched uncacheable =>
      have opens : QueueKept cache ({ start with writeAllocator := wa } : Cache R) :=
        queue.trans ⟨rfl, rfl⟩
      rw [(allocateMissBuffer_queue cfg found.pkt false opens).mshrs]
      exact .opened found.pkt false (none_joined (.inl uncacheable))
    | opened req _ _ free =>
      have opens : QueueKept cache (({ start with writeAllocator := wa } : Cache R).unread
          found.place) := by
        apply queue.trans
        cases found.place <;> exact ⟨rfl, rfl⟩
      rw [(allocateMissBuffer_queue cfg req _ opens).mshrs]
      exact .opened req _ (none_joined (.inr (.inr (.inr (.inr free)))))
    -- the MSHR it joins is the one the cache held before the access
    | joined entry mshr _ cacheable hit added waits =>
      have list : (start.setMshr entry.id mshr).mshrs = (cache.setMshr entry.id mshr).mshrs := by
        simp only [setMshr, same]
      change Requested rp cfg cache pkt tick (start.setMshr entry.id mshr).mshrs
      rw [list]
      rw [queue.order, carried] at added
      have found_here : entry ∈ cache.mshrs := by
        rw [← same]
        exact findMshr_mem hit
      apply Requested.joins entry mshr found_here _ added
      rw [asked, lookup, hit]
      simp [cacheable, waits]

/-! ### The bound -/

/-- A cache, and the MSHR for which it refuses requests. -/
structure Limited (R : Type) where
  cache : Cache R
  noTargetMSHR : Option Nat := none

namespace Limited

variable (numTarget : Nat)

/-- The test of `handleTimingReqMiss` after a request has joined an MSHR. -/
def filled (before after : Cache R) (pkt : Packet) (tick : Nat) : Option Nat :=
  ((before.joined rp cfg pkt tick).filter fun entry =>
    (after.findId entry.id).any fun now => now.mshr.numTargets = numTarget).map MshrEntry.id

/-- A step. A blocked cache accepts no request; the response for the MSHR that
blocks it unblocks it. -/
def step (s : Limited R) (e : CacheEvent) : Option (Limited R) :=
  match e with
  | .recvTimingReq pkt tick _ =>
    if s.noTargetMSHR.isSome then none
    else
      (s.cache.step rp cfg e).map fun cache =>
        { cache, noTargetMSHR := filled rp cfg numTarget s.cache cache pkt tick }
  | .recvTimingResp id _ _ _ =>
    (s.cache.step rp cfg e).map fun cache =>
      { cache, noTargetMSHR := s.noTargetMSHR.filter fun blocked => blocked ≠ id }
  | _ => (s.cache.step rp cfg e).map fun cache => { s with cache }

/-- No MSHR holds more than `numTarget` targets of the CPU side. -/
def Bounded (s : Limited R) : Prop :=
  ∀ entry ∈ s.cache.mshrs, entry.mshr.cpuTargets ≤ numTarget

/-- A request that is accepted and joins an MSHR finds fewer than `numTarget`
targets of the CPU side there. -/
def JoinsBelow (s : Limited R) (e : CacheEvent) : Prop :=
  ∀ pkt tick above entry, e = .recvTimingReq pkt tick above →
    (s.step rp cfg numTarget e).isSome →
    s.cache.joined rp cfg pkt tick = some entry → entry.mshr.cpuTargets < numTarget

/-- A snoop that is kept as a target does not bring an MSHR to exactly
`numTarget`, unless the cache is blocked for it already. -/
def SnoopsSpare (s : Limited R) (e : CacheEvent) : Prop :=
  ∀ pkt above entry, e = .recvTimingSnoopReq pkt above →
    s.cache.findMshr (pkt.line cfg.blkSize) = some entry →
    entry.mshr.keepsSnoop pkt = true → s.noTargetMSHR ≠ some entry.id →
    entry.mshr.numTargets + 1 ≠ numTarget

/-- Where an entry of the queue comes from in one step, and how its targets
changed. -/
inductive EntryChange (cache : Cache R) (e : CacheEvent) (entry : MshrEntry) : Prop where
  | kept (old : MshrEntry) (before : old ∈ cache.mshrs) (id : entry.id = old.id)
    (other : responds e ≠ some entry.id) (targets : entry.mshr.numTargets ≤ old.mshr.numTargets)
    (cpu : entry.mshr.cpuTargets ≤ old.mshr.cpuTargets)
    (snoops : entry.mshr.numTargets + old.mshr.snoopTargets ≤
      old.mshr.numTargets + entry.mshr.snoopTargets)
  | fresh (one : entry.mshr.numTargets = 1)
  | joined (pkt : Packet) (tick : Nat) (above : Packet → Bool) (old : MshrEntry)
    (event : e = .recvTimingReq pkt tick above) (before : old ∈ cache.mshrs)
    (id : entry.id = old.id) (joins : cache.joined rp cfg pkt tick = some old)
    (targets : entry.mshr.numTargets = old.mshr.numTargets + 1)
    (cpu : entry.mshr.cpuTargets = old.mshr.cpuTargets + 1)
    (snoops : entry.mshr.snoopTargets = old.mshr.snoopTargets)
  | snooped (pkt : Packet) (above : Packet → Bool) (old : MshrEntry)
    (event : e = .recvTimingSnoopReq pkt above) (before : old ∈ cache.mshrs)
    (id : entry.id = old.id) (hit : cache.findMshr (pkt.line cfg.blkSize) = some old)
    (saved : old.mshr.keepsSnoop pkt = true)
    (targets : entry.mshr.numTargets = old.mshr.numTargets + 1)
    (cpu : entry.mshr.cpuTargets = old.mshr.cpuTargets)
    (snoops : entry.mshr.snoopTargets = old.mshr.snoopTargets + 1)
  | retired (old : MshrEntry) (before : old ∈ cache.mshrs) (event : responds e = some entry.id)
    (targets : entry.mshr.numTargets + old.mshr.snoopTargets < old.mshr.numTargets)
    (snoops : entry.mshr.snoopTargets = 0)
    (cpu : entry.mshr.cpuTargets ≤ old.mshr.cpuTargets)

variable {entry : MshrEntry} {old : MshrEntry}

section Entries

variable {rp cfg}
variable {cache : Cache R} {e : CacheEvent} (lined : ∀ entry ∈ cache.mshrs, entry.mshr.Lined)
include lined

theorem entry_stays (mem : entry ∈ cache.mshrs) (other : responds e ≠ some entry.id) :
    entry.mshr.Lined ∧ EntryChange rp cfg cache e entry :=
  ⟨lined entry mem,
    .kept entry mem rfl other (Nat.le_refl _) (Nat.le_refl _) (Nat.le_refl _)⟩

theorem entry_of_lists (id : Nat) (mshr : Mshr) (mem : old ∈ cache.mshrs) (same : id = old.id)
    (other : responds e = none) (targets : mshr.targets.list = old.mshr.targets.list)
    (deferred : mshr.deferredTargets.list = old.mshr.deferredTargets.list)
    (serving : mshr.inService = false → old.mshr.inService = false) :
    mshr.Lined ∧ EntryChange rp cfg cache e ⟨id, mshr⟩ := by
  obtain ⟨num, cpu, _⟩ := Mshr.counts_of_lists targets deferred
  constructor
  · apply Mshr.lined_of_sources (lined old mem) _ _ serving
    · rw [targets]
    · rw [deferred]
  · apply EntryChange.kept old mem same (by simp [other])
    · exact Nat.le_of_eq num
    · exact Nat.le_of_eq cpu
    · show mshr.numTargets + old.mshr.snoopTargets ≤ old.mshr.numTargets + mshr.snoopTargets
      omega

theorem entries_opened {pkt : Packet} {clearNoFill : Bool} (other : responds e = none) :
    ∀ entry ∈ (cache.allocateMissBuffer cfg pkt clearNoFill).mshrs,
      entry.mshr.Lined ∧ EntryChange rp cfg cache e entry := by
  intro _ mem
  rcases List.mem_append.mp mem with old | new
  · exact entry_stays lined old (by simp [other])
  · rw [List.mem_singleton] at new
    subst new
    have first := Mshr.allocate_lined (Packet.blkAlign pkt.addr cfg.blkSize) cfg.blkSize pkt
      cache.order (cfg.allocOnFill pkt.cmd)
    unfold Mshr.allocateMissBuffer
    dsimp only
    split
    · constructor
      · exact Mshr.lined_of_sources first (by rw [Mshr.updateMayNotFill_lists]) rfl id
      · apply EntryChange.fresh
        show Mshr.numTargets _ = 1
        rw [Mshr.numTargets, Mshr.updateMayNotFill_lists]
        rfl
    · exact ⟨first, .fresh rfl⟩

variable {list : List MshrEntry}

theorem entries_requested {above : Packet → Bool} (event : e = .recvTimingReq pkt tick above)
    (requested : Requested rp cfg cache pkt tick list) :
    ∀ entry ∈ list, entry.mshr.Lined ∧ EntryChange rp cfg cache e entry := by
  have other : responds e = none := by rw [event]; rfl
  cases requested with
  | same => exact fun entry mem => entry_stays lined mem (by simp [other])
  | opened req clearNoFill => exact entries_opened lined other
  | joins old _ waits joined added =>
    apply setMshr_all
    · intro _ mem _
      exact entry_stays lined mem (by simp [other])
    · obtain ⟨num, cpu, snoops⟩ := Mshr.allocateTarget_counts added
      exact ⟨Mshr.allocateTarget_lined (lined old waits) added,
        .joined pkt tick above old event waits rfl joined num cpu snoops⟩

theorem entries_changed {order : Nat} (plain : ∀ pkt tick above, e ≠ .recvTimingReq pkt tick above)
    (change : MshrChange cfg cache e list order) :
    ∀ entry ∈ list, entry.mshr.Lined ∧ EntryChange rp cfg cache e entry := by
  intro entry mem
  cases change.entries entry mem with
  | untouched _ _ waits other => exact entry_stays lined waits other
  | missed req tick above => exact absurd rfl (plain req tick above)
  | coalesced req tick above => exact absurd rfl (plain req tick above)
  -- all that is left are events that add no target of a request
  | fetched =>
    exact entries_opened lined rfl _ (List.mem_append_right _ (List.mem_singleton_self _))
  | sent pendingModifiedResp _ old isForward waits =>
    exact entry_of_lists lined old.id
      (Mshr.markInService { old.mshr with isForward } pendingModifiedResp) waits rfl
      rfl rfl rfl (fun never => by cases never)
  | granted _ old waits _ quiet =>
    exact entry_of_lists lined old.id _ waits rfl quiet (Mshr.updateMayNotFill_lists _ _) rfl id
  | retired _ _ _ old _ _ _ _ _ _ waits promotes extracts promoted =>
    have kept := lined old waits
    obtain ⟨num, snoops, cpu⟩ := Mshr.retired_counts kept promotes extracts promoted
    exact ⟨Mshr.retired_lined kept promotes extracts promoted,
      .retired old waits rfl num snoops cpu⟩
  | squashed old mshr waits _ popped idle =>
    obtain ⟨kept, num, cpu, _⟩ := Mshr.squashed_lined (lined old waits) idle popped
    refine ⟨kept, .kept old waits rfl (by simp [responds]) ?_ cpu ?_⟩
    · exact Nat.le_of_lt num
    · show mshr.numTargets + old.mshr.snoopTargets ≤ old.mshr.numTargets + mshr.snoopTargets
      omega
  | snooped pkt above old result waits hit snoop =>
    refine ⟨Mshr.handleSnoop_lined (lined old waits) snoop, ?_⟩
    obtain ⟨num, cpu, snoops⟩ := Mshr.handleSnoop_counts snoop
    cases saved : old.mshr.keepsSnoop pkt with
    | true =>
      rw [saved] at num snoops
      exact .snooped pkt above old rfl waits rfl hit saved num cpu snoops
    | false =>
      rw [saved] at num snoops
      refine .kept old waits rfl (by simp [responds]) (Nat.le_of_eq num) (Nat.le_of_eq cpu) ?_
      show result.mshr.numTargets + old.mshr.snoopTargets ≤
        old.mshr.numTargets + result.mshr.snoopTargets
      simp only [Bool.false_eq_true, if_false] at num snoops
      omega
  | pended _ old waits =>
    exact entry_of_lists lined old.id _ waits rfl rfl rfl rfl (fun idle => idle)

/-- What a step does to the entries of the queue, one by one. -/
theorem handle_entries (ret : cache.handle rp cfg e = .ok (after, sent)) :
    ∀ entry ∈ after.mshrs, entry.mshr.Lined ∧ EntryChange rp cfg cache e entry := by
  cases event : e with
  | recvTimingReq _ _ above =>
    rw [event] at ret
    exact entries_requested lined rfl (recvTimingReq_requested ret)
  | _ =>
    rw [← event]
    refine entries_changed lined ?_ (handle_mshrs ret)
    intro _ _ _ request
    rw [event] at request
    cases request

end Entries

/-- The entries of the queue stand as they should. -/
def Formed (s : Limited R) : Prop := ∀ entry ∈ s.cache.mshrs, entry.mshr.Lined

variable {numTarget}

variable {s t : Limited R} {e : CacheEvent}

variable {rp cfg} in
theorem step_cache (taken : s.step rp cfg numTarget e = some t) :
    ∃ sent, s.cache.handle rp cfg e = .ok (t.cache, sent) := by
  rw [← step_some_iff]
  unfold step at taken
  split at taken
  · split at taken
    · cases taken
    · obtain ⟨_, stepped, rfl⟩ := Option.map_eq_some_iff.mp taken
      exact stepped
  · obtain ⟨_, stepped, rfl⟩ := Option.map_eq_some_iff.mp taken
    exact stepped
  · obtain ⟨_, stepped, rfl⟩ := Option.map_eq_some_iff.mp taken
    exact stepped

theorem Formed.step (formed : s.Formed) (taken : s.step rp cfg numTarget e = some t) :
    t.Formed := by
  obtain ⟨_, ret⟩ := step_cache taken
  intro entry mem
  exact (handle_entries formed ret entry mem).1

/-- A request that joins an MSHR leaves it with one target more. -/
theorem joined_after (joins : s.cache.joined rp cfg pkt tick = some entry)
    (taken : s.step rp cfg numTarget (.recvTimingReq pkt tick above) = some t) :
    ∃ now ∈ t.cache.mshrs, now.mshr.cpuTargets = entry.mshr.cpuTargets + 1 := by
  obtain ⟨_, ret⟩ := step_cache taken
  have requested := recvTimingReq_requested ret
  generalize t.cache.mshrs = list at requested ⊢
  cases requested with
  | same alone => simp [alone] at joins
  | opened _ _ alone => simp [alone] at joins
  | joins _ mshr waits joined added =>
    rw [joined] at joins
    cases joins
    refine ⟨⟨entry.id, mshr⟩, ?_, (Mshr.allocateTarget_counts added).2.1⟩
    exact List.mem_map.mpr ⟨entry, waits, by simp⟩

/-- A step keeps the bound exactly when no request joins a full MSHR. -/
theorem step_bounded_iff (positive : 1 ≤ numTarget) (s : Limited R) (e : CacheEvent)
    (formed : s.Formed) (bounded : s.Bounded numTarget) :
    (∀ t, s.step rp cfg numTarget e = some t → t.Bounded numTarget) ↔
      s.JoinsBelow rp cfg numTarget e := by
  constructor
  · rintro kept pkt tick above entry rfl possible joins
    obtain ⟨t, taken⟩ := Option.isSome_iff_exists.mp possible
    obtain ⟨now, mem, _⟩ := joined_after rp cfg joins taken
    have bound := kept t taken now mem
    omega
  · intro below _ taken entry mem
    obtain ⟨_, ret⟩ := step_cache taken
    have change := (handle_entries formed ret entry mem).2
    cases change with
    -- only a request that joins adds a target that counts
    | kept old before =>
      have bound := bounded old before
      omega
    | fresh =>
      have most := entry.mshr.cpu_add_snoop_le
      omega
    | joined pkt tick above old event _ _ joins =>
      have bound := below pkt tick above old event (by simp [taken]) joins
      omega
    | snooped _ _ old _ before =>
      have bound := bounded old before
      omega
    | retired old before =>
      have bound := bounded old before
      omega

/-- The MSHR for which the cache is blocked after a step. -/
theorem step_blocked (taken : s.step rp cfg numTarget e = some t) :
    (∃ pkt tick above, e = .recvTimingReq pkt tick above ∧ s.noTargetMSHR = none ∧
        t.noTargetMSHR = filled rp cfg numTarget s.cache t.cache pkt tick) ∨
      (∀ pkt tick above, e ≠ .recvTimingReq pkt tick above) ∧
        ∀ id, responds e ≠ some id → t.noTargetMSHR ≠ some id → s.noTargetMSHR ≠ some id := by
  unfold step at taken
  split at taken
  next pkt tick above =>
    split at taken
    next => cases taken
    next free =>
      obtain ⟨_, _, rfl⟩ := Option.map_eq_some_iff.mp taken
      exact .inl ⟨pkt, tick, above, rfl, by simpa using free, rfl⟩
  next id _ _ _ =>
    obtain ⟨_, _, rfl⟩ := Option.map_eq_some_iff.mp taken
    refine .inr ⟨fun _ _ _ => nofun, fun other away now blocked => now ?_⟩
    have apart : other ≠ id := fun same => away (congrArg some same.symm)
    simp [blocked, apart]
  next plain _ =>
    obtain ⟨_, _, rfl⟩ := Option.map_eq_some_iff.mp taken
    exact .inr ⟨plain, fun other _ now => now⟩

theorem joined_found (joins : s.cache.joined rp cfg pkt tick = some old)
    (taken : s.step rp cfg numTarget (.recvTimingReq pkt tick above) = some t)
    (mem : entry ∈ t.cache.mshrs) (same : entry.id = old.id) :
    t.cache.findId old.id = some entry := by
  obtain ⟨_, ret⟩ := step_cache taken
  have requested := recvTimingReq_requested ret
  unfold findId
  generalize t.cache.mshrs = list at requested mem ⊢
  cases requested with
  | same alone => simp [alone] at joins
  | opened _ _ alone => simp [alone] at joins
  | joins _ mshr _ joined =>
    rw [joined] at joins
    cases joins
    -- every entry with this number is the one that was written
    have written : ∀ now ∈ (s.cache.setMshr old.id mshr).mshrs, now.id = old.id →
        now = ⟨old.id, mshr⟩ := by
      apply setMshr_all
      · intro _ _ other same
        exact absurd same other
      · exact fun _ => rfl
    have found : ((s.cache.setMshr old.id mshr).mshrs.find? fun now =>
      decide (now.id = old.id)).isSome := by
      rw [List.find?_isSome]
      exact ⟨entry, mem, by simpa using same⟩
    obtain ⟨now, found⟩ := Option.isSome_iff_exists.mp found
    rw [found, written entry mem same,
      written now (List.mem_of_find?_eq_some found) (by simpa using List.find?_some found)]

/-- Without a full MSHR the cache is not blocked, and requests alone never
overfill the one it is blocked for. -/
def Spared (numTarget : Nat) (s : Limited R) : Prop :=
  ∀ entry ∈ s.cache.mshrs,
    entry.mshr.numTargets ≤ numTarget + entry.mshr.snoopTargets ∧
      (s.noTargetMSHR ≠ some entry.id → entry.mshr.numTargets < numTarget)

theorem Spared.bounded (spared : s.Spared numTarget) : s.Bounded numTarget := by
  intro entry mem
  have most := entry.mshr.cpu_add_snoop_le
  have bound := (spared entry mem).1
  omega

/-- A step that meets the condition on snoops keeps the room. -/
theorem Spared.step (several : 2 ≤ numTarget) (formed : s.Formed) (spared : s.Spared numTarget)
    (spares : s.SnoopsSpare cfg numTarget e)
    (taken : s.step rp cfg numTarget e = some t) : t.Spared numTarget := by
  intro entry mem
  obtain ⟨_, ret⟩ := step_cache taken
  have change := (handle_entries formed ret entry mem).2
  have blocked := step_blocked rp cfg taken
  cases change with
  | kept old before same other =>
    obtain ⟨_, below⟩ := spared old before
    refine ⟨by omega, fun free => ?_⟩
    have freed : s.noTargetMSHR ≠ some old.id := by
      rcases blocked with ⟨_, _, _, _, unblocked, _⟩ | ⟨_, still⟩
      · simp [unblocked]
      · rw [← same]
        exact still entry.id other free
    have less := below freed
    omega
  | fresh => omega
  | joined pkt tick above old event before same joins =>
    subst event
    rcases blocked with ⟨_, _, _, event, unblocked, now⟩ | ⟨plain, _⟩
    · cases event
      obtain ⟨_, below⟩ := spared old before
      have less := below (by simp [unblocked])
      refine ⟨by omega, fun free => ?_⟩
      -- had the target filled the MSHR, the cache would be blocked for it
      have found := joined_found rp cfg joins taken mem same
      have unfilled : entry.mshr.numTargets ≠ numTarget := by
        intro full
        apply free
        rw [now, filled, joins]
        simp [found, full, same]
      omega
    · exact absurd rfl (plain pkt tick above)
  | snooped pkt above old event before same hit saved =>
    obtain ⟨_, below⟩ := spared old before
    refine ⟨by omega, fun free => ?_⟩
    rcases blocked with ⟨_, _, _, request, _⟩ | ⟨_, still⟩
    · rw [event] at request
      cases request
    · have freed : s.noTargetMSHR ≠ some old.id := by
        rw [← same]
        exact still entry.id (by simp [event, responds]) free
      have less := below freed
      have spare := spares pkt above old event hit saved freed
      omega
  | retired old before =>
    have room := (spared old before).1
    omega

/-- The cache before its first request. -/
def start (repl : R) : Limited R := { cache := .empty repl }

theorem start_formed (repl : R) : (start repl).Formed := by
  intro _ mem
  cases mem

/-- In a run from the empty cache no MSHR ever holds more than `numTarget`
targets of the CPU side exactly when no request joins an MSHR that has that many
already. With `tgts_per_mshr` above one this is so as long as no snoop takes the
last free target of an MSHR. -/
theorem targets_bounded (repl : R) (positive : 1 ≤ numTarget) (events : List CacheEvent) :
    (Runs.Along (step rp cfg numTarget)
        (fun s e => ∀ t, s.step rp cfg numTarget e = some t → t.Bounded numTarget)
        (start repl) events ↔ Runs.Along (step rp cfg numTarget) (JoinsBelow rp cfg numTarget)
        (start repl) events) ∧ (2 ≤ numTarget →
      Runs.Along (step rp cfg numTarget) (SnoopsSpare cfg numTarget) (start repl) events →
      Runs.Along (step rp cfg numTarget)
        (fun s e => ∀ t, s.step rp cfg numTarget e = some t → t.Bounded numTarget)
        (start repl) events) := by
  constructor
  · apply Runs.along_keeps_iff (fun s e t formed taken => Formed.step rp cfg formed taken)
      (step_bounded_iff rp cfg positive) (start repl) events (start_formed repl)
    intro _ mem
    cases mem
  · intro several along
    -- the room and the shape of the entries are kept together
    have keeps : ∀ (s : Limited R) (e : CacheEvent) (t : Limited R),
        s.Formed ∧ s.Spared numTarget → s.SnoopsSpare cfg numTarget e →
        s.step rp cfg numTarget e = some t → t.Formed ∧ t.Spared numTarget :=
      fun s e t inv spares taken =>
        ⟨Formed.step rp cfg inv.1 taken,
          Spared.step rp cfg several inv.1 inv.2 spares taken⟩
    refine Runs.along_of_invariant keeps ?_ (start repl) events ⟨start_formed repl, ?_⟩ along
    · intro s e inv spares t taken
      exact (keeps s e t inv spares taken).2.bounded
    · intro _ mem
      cases mem

def load (addr : Addr) : Packet := .ofRequest {} .readReq addr 8

/-- Loads fill an MSHR up to its last target; the cache is blocked until the
response. -/
def fullMiss : List CacheEvent :=
  [.recvTimingReq (load 0) 0 fun _ => false, .recvTimingReq (load 8) 1 fun _ => false,
   .sendMSHRQueuePacket 0 false fun _ => false, .recvTimingReq (load 16) 2 fun _ => false]

theorem fullMiss_bounded : Runs.Along (step oneBlock (.guarded 2) 2)
      (fun s e => ∀ t, s.step oneBlock (.guarded 2) 2 e = some t → t.Bounded 2) (start ())
      fullMiss := by
  refine (targets_bounded oneBlock (.guarded 2) () (by decide) fullMiss).2 (by decide) ?_
  refine ⟨fun _ _ _ => nofun, fun _ _ => ⟨fun _ _ _ => nofun, fun _ _ => ⟨fun _ _ _ => nofun,
    fun _ _ => ⟨fun _ _ _ => nofun, fun _ _ => trivial⟩⟩⟩⟩

/-- With one target per MSHR, the second load of a line. -/
def secondLoad : List CacheEvent :=
  [.recvTimingReq (load 0) 0 fun _ => false, .recvTimingReq (load 8) 1 fun _ => false]

/-- With two, a snoop between the loads: the invalidation of another cache takes
the second target of a miss that has been sent. -/
def snoopBetween : List CacheEvent :=
  [.recvTimingReq (load 0) 0 fun _ => false,
   .sendMSHRQueuePacket 0 false fun _ => false,
   .recvTimingSnoopReq { Packet.ofBlock {} .readExReq 0 64 with expressSnoop := true }
     fun _ => false,
   .recvTimingReq (load 8) 1 fun _ => false, .recvTimingReq (load 16) 2 fun _ => false]

/-- The most targets of the CPU side that an MSHR holds at the end of a run. -/
def mostAfter (numTarget : Nat) (events : List CacheEvent) : Option Nat :=
  (Runs.run (step oneBlock (.guarded 2) numTarget) (start ()) events).map fun s =>
    (s.cache.mshrs.map fun entry => entry.mshr.cpuTargets).foldl max 0

/-- Both runs overfill the MSHR. -/
theorem joined_over_bound : mostAfter 1 secondLoad = some 2 ∧ mostAfter 2 snoopBetween = some 3 ∧
    ¬ Runs.Along (step oneBlock (.guarded 2) 1)
      (fun s e => ∀ t, s.step oneBlock (.guarded 2) 1 e = some t → t.Bounded 1) (start ())
      secondLoad ∧ ¬ Runs.Along (step oneBlock (.guarded 2) 2)
      (fun s e => ∀ t, s.step oneBlock (.guarded 2) 2 e = some t → t.Bounded 2) (start ())
      snoopBetween := by
  refine ⟨by decide, by decide, fun along => ?_, fun along => ?_⟩
  · have last := (along.2 _ rfl).1 _ rfl _ List.mem_cons_self
    exact absurd last (by decide)
  · have last := (along.2 _ rfl |>.2 _ rfl |>.2 _ rfl |>.2 _ rfl).1 _ rfl _ List.mem_cons_self
    exact absurd last (by decide)

end Limited

end Cache

end RasCache.Mem
