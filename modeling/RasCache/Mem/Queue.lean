import RasCache.Mem.Access

/-!
# The MSHRs of a cache over one step

Only a handful of places touch the MSHR queue. `MshrChange` lists what a step can
do to it, and `handle_mshrs` is the inversion of `handle` that invariants of the
queue start from.
-/
namespace RasCache.Mem

open Outcomes

variable {R : Type}

namespace Cache

variable {rp : ReplacementPolicy R} {cfg : CacheParams}

/-! ### Code that leaves the queue alone -/

variable {cache after : Cache R} {pkt : Packet} {tick id : Nat} {mshr : Mshr} {found : Access R}
  {e : CacheEvent} {above : Packet → Bool} {sent : Sent}

theorem handleFill_queue {blk : Option Place} {allocate : Bool} {filled : Filled R}
    (ret : cache.handleFill rp cfg pkt blk allocate tick = .ok filled) :
    QueueKept cache filled.cache := by
  cases handleFill_cases ret with
  | present => exact ⟨rfl, rfl⟩
  | allocated _ _ _ _ took =>
    have kept := allocateBlock_queue took
    exact kept.trans ⟨rfl, rfl⟩
  | temporary _ _ _ _ _ refused =>
    rcases refused with ⟨_, rfl, _⟩ | ⟨_, took⟩
    · exact ⟨rfl, rfl⟩
    · have kept := allocateBlock_queue took
      exact kept.trans ⟨rfl, rfl⟩

variable {place : Option Place} {writebacks : List Packet} {P : MshrEntry → Prop}
  {ref : Option BlkRef} {entry : MshrEntry} {start : Cache R} {second first third : Mshr}

theorem fillStage_queue {filled : Cache R} {resp : Packet}
    (ret : cache.fillStage rp cfg mshr pkt tick = .ok (ref, filled, writebacks, resp)) :
    QueueKept cache filled := by
  cases fillStage_cases ret with
  | filled _ _ _ fill => exact handleFill_queue fill
  | passed => exact ⟨rfl, rfl⟩

theorem blockForWrite_queue {out : Option Place}
    (ret : cache.blockForWrite rp cfg pkt place tick = .ok (out, after, writebacks)) :
    QueueKept cache after := by
  cases blockForWrite_cases ret with
  | present => exact ⟨rfl, rfl⟩
  | denied => exact ⟨rfl, rfl⟩
  | refused _ _ took => exact allocateBlock_queue took
  | allocated _ _ _ took =>
    have kept := allocateBlock_queue took
    exact kept.trans ⟨rfl, rfl⟩

theorem BlkAccess.queue (outcome : BlkAccess rp cfg cache pkt place tick found) :
    QueueKept cache found.cache := by
  cases outcome with
  | unplaced _ _ _ took =>
    exact blockForWrite_queue took
  | written _ _ _ _ took =>
    exact (blockForWrite_queue took).trans ⟨rfl, rfl⟩
  | satisfied _ after _ _ _ _ request =>
    exact ((satisfyRequest_frame request).trans (maintainClusivity_frame rp cfg after _ _)).queue
  | _ => exact ⟨rfl, rfl⟩

theorem access_queue (ret : cache.access rp cfg pkt tick = .ok found) :
    QueueKept cache found.cache := by
  cases access_cases ret with
  | accessed start _ _ begins _ outcome =>
    have touched : QueueKept cache (cache.lookedUp rp cfg pkt tick) := ⟨rfl, rfl⟩
    have first : QueueKept cache start := by
      rw [begins]
      split
      · exact touched.trans (dropWrite_queue _ pkt)
      · exact touched
    exact first.trans (outcome.queue)
  | _ => exact ⟨rfl, rfl⟩

variable (rp cfg) in
/-- An access changes its packet only by satisfying it from a block. -/
def Untouched (pkt : Packet) (found : Access R) : Prop :=
  found.pkt = pkt ∨ found.satisfied = true ∧ ∃ cache after ref,
    satisfyRequest rp cfg cache pkt ref false false = .ok (after, found.pkt)

theorem access_pkt (ret : cache.access rp cfg pkt tick = .ok found) :
    Untouched rp cfg pkt found := by
  cases access_cases ret with
  | accessed start _ _ _ _ outcome =>
    cases outcome with
    | satisfied used after _ _ _ _ request => exact .inr ⟨rfl, start, after, .tag used, request⟩
    | _ => exact .inl rfl
  | _ => exact .inl rfl

theorem access_missed (missed : found.satisfied = false)
    (ret : cache.access rp cfg pkt tick = .ok found) : found.pkt = pkt := by
  rcases access_pkt ret with same | ⟨satisfied, _⟩
  · exact same
  · rw [missed] at satisfied
    cases satisfied

/-! ### Promotions before the targets are serviced -/

/-- Two states of one MSHR: neither its line nor whether lookups see it changes. -/
structure SameLine (before after : Mshr) : Prop where
  key : after.key = before.key
  uncacheable : after.uncacheable = before.uncacheable

theorem SameLine.trans (one : SameLine first second) (two : SameLine second third) :
    SameLine first third :=
  ⟨two.key.trans one.key, two.uncacheable.trans one.uncacheable⟩

/-- Deferred targets move up in order, none of them past an invalidation, and
the state of the MSHR stays. -/
structure Promotes (before after : Mshr) (moved : List Target) : Prop where
  targets : after.targets.list = before.targets.list ++ moved
  deferred : before.deferredTargets.list = moved ++ after.deferredTargets.list
  barred : before.postInvalidate = true → moved = []
  isForward : after.isForward = before.isForward
  postInvalidate : after.postInvalidate = before.postInvalidate
  line : SameLine before after

theorem Promotes.refl (mshr : Mshr) : Promotes mshr mshr [] :=
  ⟨by simp, rfl, fun _ => rfl, rfl, rfl, rfl, rfl⟩

theorem Promotes.waiting {before after : Mshr} {moved : List Target}
    (promotes : Promotes before after moved) : after.waiting = before.waiting := by
  rw [Mshr.waiting, Mshr.waiting, promotes.targets, promotes.deferred, List.append_assoc]

theorem Promotes.trans {some more : List Target} (one : Promotes first second some)
    (two : Promotes second third more) : Promotes first third (some ++ more) := by
  refine ⟨?_, ?_, fun barred => ?_, ?_, ?_, one.line.trans two.line⟩
  · rw [two.targets, one.targets, List.append_assoc]
  · rw [one.deferred, two.deferred, List.append_assoc]
  · rw [one.barred barred, two.barred (one.postInvalidate.trans barred), List.append_nil]
  · rw [two.isForward, one.isForward]
  · rw [two.postInvalidate, one.postInvalidate]

theorem promoteIf_promotes {after : Mshr} {pred : Target → Bool}
    (promoted : mshr.promoteIf pred = some after) (free : mshr.postInvalidate = false) :
    ∃ moved, Promotes mshr after moved := by
  unfold Mshr.promoteIf at promoted
  split at promoted <;> cases promoted
  refine ⟨mshr.deferredTargets.list.takeWhile pred, rfl, ?_, fun barred => ?_, rfl, rfl,
    rfl, rfl⟩
  · exact List.takeWhile_append_dropWhile.symm
  · rw [free] at barred
    cases barred

theorem promoteReadable_promotes {after : Mshr} (promoted : mshr.promoteReadable = some after) :
    ∃ moved, Promotes mshr after moved := by
  unfold Mshr.promoteReadable at promoted
  split at promoted
  next free =>
    simp only [Bool.and_eq_true, Bool.not_eq_true'] at free
    exact promoteIf_promotes promoted free.2
  next =>
    cases promoted
    exact ⟨[], .refl mshr⟩

theorem promoteWritable_promotes {after : Mshr} (promoted : mshr.promoteWritable = some after) :
    ∃ moved, Promotes mshr after moved := by
  unfold Mshr.promoteWritable at promoted
  split at promoted
  · cases promoted
    exact ⟨[], .refl mshr⟩
  · split at promoted
    next free =>
      simp only [Bool.and_eq_true, Bool.not_eq_true', Bool.or_eq_false_iff] at free
      split at promoted
      · cases promoted
      · obtain ⟨moved, up⟩ := promoteIf_promotes promoted free.1.2.1
        exact ⟨moved, up.targets, up.deferred, up.barred, up.isForward, up.postInvalidate,
          up.line.key, up.line.uncacheable⟩
    next =>
      cases promoted
      exact ⟨[], .refl mshr⟩

theorem promoteStage_promotes {promoted : Mshr}
    (ret : promoteStage mshr pkt ref cache = .ok (promoted, after)) :
    ∃ moved, Promotes mshr promoted moved := by
  obtain ⟨⟨readable, _⟩, first, ret⟩ := bind_ok_iff.mp ret
  obtain ⟨_, second, ret⟩ := bind_ok_iff.mp ret
  cases ret
  -- each of the two stages moves deferred targets up, or none
  have one : ∃ moved, Promotes mshr readable moved := by
    unfold readableStage at first
    split at first
    · obtain ⟨_, promoted, same⟩ := map_ok_iff.mp first
      cases same
      exact promoteReadable_promotes (orFail_ok_iff.mp promoted)
    · cases first
      exact ⟨[], .refl mshr⟩
  have two : ∃ moved, Promotes readable promoted moved := by
    unfold writableStage at second
    split at second
    · exact promoteWritable_promotes (orFail_ok_iff.mp second)
    · cases second
      exact ⟨[], .refl _⟩
  obtain ⟨some, one⟩ := one
  obtain ⟨more, two⟩ := two
  exact ⟨some ++ more, one.trans two⟩

/-! ### What a step does to the queue -/

variable (cfg) in
/-- The MSHR whose fill permission an event grants: a PfAck or a history-buffer
fetch that hits it. -/
def grantee (cache : Cache R) : CacheEvent → Option MshrEntry
  | .recvPfAck pkt => if cfg.pfAckEn then cache.findMshr pkt.rawLine else none
  | .issuePrefetch line =>
    if cfg.pfAckEn then cache.findMshr ((prefetchPacket cfg line).line cfg.blkSize)
    else none
  | _ => none

/-- The MSHR an event brings the response for. -/
def responds : CacheEvent → Option Nat
  | .recvTimingResp id _ _ _ => some id
  | _ => none

variable (cfg) in
/-- The MSHRs and the running counter after an event. -/
inductive MshrChange (cache : Cache R) : CacheEvent → List MshrEntry → Nat → Prop where
  | same (e : CacheEvent) (other : responds e = none) :
    MshrChange cache e cache.mshrs cache.order
  /-- A software prefetch is replaced by a new packet. The flag is cleared at the
  allocation only where no-fill is not enabled. -/
  | missed (req : Packet) (tick : Nat) (above : Packet → Bool) (pkt : Packet) (clearNoFill : Bool)
    (carries : pkt = req ∨ pkt = Packet.ofRequest req.req req.cmd req.addr req.size)
    (cleared : clearNoFill = true → cfg.nofillEn = false)
    (free : pkt.req.flags.uncacheable = true ∨ cache.findMshr (pkt.line cfg.blkSize) = none) :
    MshrChange cache (.recvTimingReq req tick above)
      (cache.allocateMissBuffer cfg pkt clearNoFill).mshrs (cache.order + 1)
  | fetched (line : LineKey)
    (free : cache.findMshr ((prefetchPacket cfg line).line cfg.blkSize) = none) :
    MshrChange cache (.issuePrefetch line)
      (cache.allocateMissBuffer cfg (prefetchPacket cfg line) true).mshrs (cache.order + 1)
  | coalesced (req : Packet) (tick : Nat) (above : Packet → Bool) (entry : MshrEntry)
    (mshr : Mshr) (hit : cache.findMshr (req.line cfg.blkSize) = some entry)
    (added : entry.mshr.allocateTarget req cache.order (cfg.allocOnFill req.cmd) = some mshr) :
    MshrChange cache (.recvTimingReq req tick above) (cache.setMshr entry.id mshr).mshrs
      (cache.order + 1)
  | sent (id : Nat) (pendingModifiedResp : Bool) (above : Packet → Bool) (entry : MshrEntry)
    (isForward : Bool) (found : cache.findId id = some entry)
    (idle : entry.mshr.inService = false) :
    MshrChange cache (.sendMSHRQueuePacket id pendingModifiedResp above)
      (cache.setMshr id
        (Mshr.markInService { entry.mshr with isForward } pendingModifiedResp)).mshrs
      cache.order
  | granted (e : CacheEvent) (entry : MshrEntry) (hit : cache.grantee cfg e = some entry) :
    MshrChange cache e (cache.grantFill entry).mshrs cache.order
  | retired (id : Nat) (pkt : Packet) (tick : Nat) (above : Packet → Bool) (entry : MshrEntry)
    (moved : List Target) (cmd : MemCmd) (ready : TargetList) (serviced left mshr : Mshr)
    (found : cache.findId id = some entry) (promotes : Promotes entry.mshr serviced moved)
    (extracts : serviced.extractServiceableTargets cmd = some (ready, left))
    (promoted : left.promoteDeferredTargets = some mshr) :
    MshrChange cache (.recvTimingResp id pkt tick above)
      (cache.setMshr id { mshr with inService := false }).mshrs cache.order
  | freed (id : Nat) (pkt : Packet) (tick : Nat) (above : Packet → Bool) :
    MshrChange cache (.recvTimingResp id pkt tick above) (cache.removeMshr id).mshrs cache.order
  | squashed (id : Nat) (entry : MshrEntry) (mshr : Mshr) (found : cache.findId id = some entry)
    (popped : entry.mshr.forceDeallocateTarget = some (some mshr))
    (idle : entry.mshr.inService = false) :
    MshrChange cache (.squashPrefetch id) (cache.setMshr id mshr).mshrs cache.order
  | dropped (id : Nat) :
    MshrChange cache (.squashPrefetch id) (cache.removeMshr id).mshrs cache.order
  | snooped (pkt : Packet) (above : Packet → Bool) (entry : MshrEntry) (result : Mshr.SnoopResult)
    (hit : cache.findMshr (pkt.line cfg.blkSize) = some entry)
    (handled : entry.mshr.handleSnoop pkt cache.order = some result) :
    MshrChange cache (.recvTimingSnoopReq pkt above) (cache.setMshr entry.id result.mshr).mshrs
      (cache.order + 1)
  | pended (id : Nat) (pending : Bool) :
    MshrChange cache (.setDownstreamPending id pending)
      (cache.mshrs.map fun e =>
        if e.id = id then { e with mshr := { e.mshr with downstreamPending := pending } } else e)
      cache.order

theorem MshrChange.of_kept {next : Cache R} (kept : QueueKept cache next)
    (other : responds e = none) : MshrChange cfg cache e next.mshrs next.order := by
  rw [kept.mshrs, kept.order]
  exact .same e other

/-! ### Replacing and removing entries -/

theorem setMshr_all (cache : Cache R) (id : Nat) (mshr : Mshr)
    (rest : ∀ entry ∈ cache.mshrs, entry.id ≠ id → P entry) (new : P ⟨id, mshr⟩) :
    ∀ entry ∈ (cache.setMshr id mshr).mshrs, P entry := by
  intro _ mem
  obtain ⟨old, waits, rfl⟩ := List.mem_map.mp mem
  by_cases same : old.id = id
  · simp only [same, if_true]
    exact new
  · simp only [same, if_false]
    exact rest old waits same

theorem removeMshr_all {cache : Cache R} {id : Nat}
    (rest : ∀ entry ∈ cache.mshrs, entry.id ≠ id → P entry) :
    ∀ entry ∈ (cache.removeMshr id).mshrs, P entry := by
  intro entry mem
  obtain ⟨waits, other⟩ := List.mem_filter.mp mem
  exact rest entry waits (by simpa using other)

theorem step_some_iff : cache.step rp cfg e = some after ↔
      ∃ sent, cache.handle rp cfg e = .ok (after, sent) := by
  unfold step
  cases cache.handle rp cfg e with
  | error => simp [Except.toOption]
  | ok out =>
    obtain ⟨_, _⟩ := out
    simp [Except.toOption]

theorem findMshr_mem {key : LineKey} {e : MshrEntry} (found : cache.findMshr key = some e) :
    e ∈ cache.mshrs :=
  List.mem_of_find?_eq_some found

theorem findId_mem {e : MshrEntry} (found : cache.findId id = some e) :
    e ∈ cache.mshrs ∧ e.id = id :=
  ⟨List.mem_of_find?_eq_some found, by simpa using List.find?_some found⟩

theorem grantee_found (hit : cache.grantee cfg e = some entry) :
    (∃ key, cache.findMshr key = some entry) ∧ responds e = none := by
  unfold grantee at hit
  split at hit
  · split at hit
    · exact ⟨⟨_, hit⟩, rfl⟩
    · cases hit
  · split at hit
    · exact ⟨⟨_, hit⟩, rfl⟩
    · cases hit
  · cases hit

theorem grantee_mem (hit : cache.grantee cfg e = some entry) :
    entry ∈ cache.mshrs ∧ responds e = none := by
  obtain ⟨⟨_, found⟩, quiet⟩ := grantee_found hit
  exact ⟨findMshr_mem found, quiet⟩

variable (cfg) in
/-- Where an MSHR comes from that is there after an event. -/
inductive MshrCase (cache : Cache R) : CacheEvent → MshrEntry → Prop where
  | untouched (e : CacheEvent) (entry : MshrEntry) (waits : entry ∈ cache.mshrs)
    (other : responds e ≠ some entry.id) : MshrCase cache e entry
  | missed (req : Packet) (tick : Nat) (above : Packet → Bool) (pkt : Packet) (clearNoFill : Bool)
    (carries : pkt = req ∨ pkt = Packet.ofRequest req.req req.cmd req.addr req.size)
    (cleared : clearNoFill = true → cfg.nofillEn = false)
    (free : pkt.req.flags.uncacheable = true ∨ cache.findMshr (pkt.line cfg.blkSize) = none) :
    MshrCase cache (.recvTimingReq req tick above)
      ⟨cache.order, Mshr.allocateMissBuffer cfg.blkSize pkt cache.order
        (cfg.allocOnFill pkt.cmd) clearNoFill⟩
  | fetched (line : LineKey)
    (free : cache.findMshr ((prefetchPacket cfg line).line cfg.blkSize) = none) :
    MshrCase cache (.issuePrefetch line)
      ⟨cache.order, Mshr.allocateMissBuffer cfg.blkSize (prefetchPacket cfg line) cache.order
        (cfg.allocOnFill (prefetchPacket cfg line).cmd) true⟩
  | coalesced (req : Packet) (tick : Nat) (above : Packet → Bool) (old : MshrEntry) (mshr : Mshr)
    (waits : old ∈ cache.mshrs) (hit : cache.findMshr (req.line cfg.blkSize) = some old)
    (added : old.mshr.allocateTarget req cache.order (cfg.allocOnFill req.cmd) = some mshr) :
    MshrCase cache (.recvTimingReq req tick above) ⟨old.id, mshr⟩
  | sent (pendingModifiedResp : Bool) (above : Packet → Bool) (old : MshrEntry) (isForward : Bool)
    (waits : old ∈ cache.mshrs) (found : cache.findId old.id = some old)
    (idle : old.mshr.inService = false) :
    MshrCase cache (.sendMSHRQueuePacket old.id pendingModifiedResp above)
      ⟨old.id, Mshr.markInService { old.mshr with isForward } pendingModifiedResp⟩
  | granted (e : CacheEvent) (old : MshrEntry) (waits : old ∈ cache.mshrs)
    (hit : cache.grantee cfg e = some old) (quiet : responds e = none) :
    MshrCase cache e ⟨old.id, old.mshr.updateMayNotFill false⟩
  | retired (pkt : Packet) (tick : Nat) (above : Packet → Bool) (old : MshrEntry)
    (moved : List Target) (cmd : MemCmd) (ready : TargetList) (serviced left mshr : Mshr)
    (waits : old ∈ cache.mshrs) (promotes : Promotes old.mshr serviced moved)
    (extracts : serviced.extractServiceableTargets cmd = some (ready, left))
    (promoted : left.promoteDeferredTargets = some mshr) :
    MshrCase cache (.recvTimingResp old.id pkt tick above)
      ⟨old.id, { mshr with inService := false }⟩
  | squashed (old : MshrEntry) (mshr : Mshr) (waits : old ∈ cache.mshrs)
    (found : cache.findId old.id = some old)
    (popped : old.mshr.forceDeallocateTarget = some (some mshr))
    (idle : old.mshr.inService = false) : MshrCase cache (.squashPrefetch old.id) ⟨old.id, mshr⟩
  | snooped (pkt : Packet) (above : Packet → Bool) (old : MshrEntry) (result : Mshr.SnoopResult)
    (waits : old ∈ cache.mshrs) (hit : cache.findMshr (pkt.line cfg.blkSize) = some old)
    (snoop : old.mshr.handleSnoop pkt cache.order = some result) :
    MshrCase cache (.recvTimingSnoopReq pkt above) ⟨old.id, result.mshr⟩
  | pended (pending : Bool) (old : MshrEntry) (waits : old ∈ cache.mshrs) :
    MshrCase cache (.setDownstreamPending old.id pending)
      ⟨old.id, { old.mshr with downstreamPending := pending }⟩

/-- An invariant of the MSHRs is proved one MSHR at a time: every event leaves the
others as they are. -/
theorem MshrChange.entries {list : List MshrEntry} {order : Nat}
    (change : MshrChange cfg cache e list order) : ∀ entry ∈ list, MshrCase cfg cache e entry := by
  have quiet (e : CacheEvent) (silent : responds e = none) (entry : MshrEntry)
      (waits : entry ∈ cache.mshrs) : MshrCase cfg cache e entry :=
    .untouched e entry waits (by simp [silent])
  have answered (id : Nat) (pkt : Packet) (tick : Nat) (above : Packet → Bool) (entry : MshrEntry)
      (waits : entry ∈ cache.mshrs) (other : entry.id ≠ id) :
      MshrCase cfg cache (.recvTimingResp id pkt tick above) entry :=
    .untouched _ entry waits fun same => other (Option.some.inj same).symm
  cases change with
  -- an event is about one MSHR at most, and the others are as they were
  | same _ silent => exact quiet e silent
  | missed req tick above pkt clearNoFill carries cleared free =>
    exact List.forall_mem_append.mpr ⟨quiet _ rfl, List.forall_mem_singleton.mpr
      (.missed req tick above pkt clearNoFill carries cleared free)⟩
  | fetched line free =>
    exact List.forall_mem_append.mpr
      ⟨quiet _ rfl, List.forall_mem_singleton.mpr (.fetched line free)⟩
  | coalesced req tick above old mshr hit added =>
    refine setMshr_all cache old.id mshr (fun entry waits _ => quiet _ rfl entry waits) ?_
    exact .coalesced req tick above old mshr (findMshr_mem hit) hit added
  | sent _ pendingModifiedResp above old isForward found idle =>
    obtain ⟨waits, rfl⟩ := findId_mem found
    refine setMshr_all cache old.id _ (fun entry waits _ => quiet _ rfl entry waits) ?_
    exact .sent pendingModifiedResp above old isForward waits found idle
  | granted _ old hit =>
    obtain ⟨waits, silent⟩ := grantee_mem hit
    refine setMshr_all cache old.id _ (fun entry waits _ => quiet e silent entry waits) ?_
    exact .granted e old waits hit silent
  | retired id pkt tick above old moved cmd ready serviced left mshr found promotes extracts
      promoted =>
    obtain ⟨waits, rfl⟩ := findId_mem found
    refine setMshr_all cache old.id _ (answered old.id pkt tick above) ?_
    exact .retired pkt tick above old moved cmd ready serviced left mshr waits promotes extracts
      promoted
  | freed id pkt tick above => exact removeMshr_all (answered id pkt tick above)
  | squashed _ old mshr found popped idle =>
    obtain ⟨waits, rfl⟩ := findId_mem found
    refine setMshr_all cache old.id mshr (fun entry waits _ => quiet _ rfl entry waits) ?_
    exact .squashed old mshr waits found popped idle
  | dropped id => exact removeMshr_all fun entry waits _ => quiet _ rfl entry waits
  | snooped pkt above old result hit snoop =>
    refine setMshr_all cache old.id _ (fun entry waits _ => quiet _ rfl entry waits) ?_
    exact .snooped pkt above old result (findMshr_mem hit) hit snoop
  | pended _ pending =>
    intro _ mem
    obtain ⟨old, waits, rfl⟩ := List.mem_map.mp mem
    split
    next same =>
      subst same
      exact .pended pending old waits
    next => exact quiet _ rfl old waits

variable (cfg) in
theorem allocateMissBuffer_queue (pkt : Packet) (clearNoFill : Bool)
    (kept : QueueKept cache start) : QueueKept (cache.allocateMissBuffer cfg pkt clearNoFill)
      (start.allocateMissBuffer cfg pkt clearNoFill) := by
  constructor <;> simp only [allocateMissBuffer, kept.mshrs, kept.order]

section Request

variable (req : Packet) (tick : Nat) (above : Packet → Bool)

theorem handleTimingReqMiss_mshrs (kept : QueueKept cache start)
    (ret : start.handleTimingReqMiss cfg req place = .ok (after, sent)) :
    MshrChange cfg cache (.recvTimingReq req tick above) after.mshrs after.order := by
  -- a new entry depends on the queue only, and that is the one the request found
  have allocated (next : Cache R) (pkt : Packet) (clearNoFill : Bool) (still : QueueKept cache next)
      (carries : pkt = req ∨ pkt = Packet.ofRequest req.req req.cmd req.addr req.size)
      (cleared : clearNoFill = true → cfg.nofillEn = false)
      (free : pkt.req.flags.uncacheable = true ∨
        start.findMshr (pkt.line cfg.blkSize) = none) :
      MshrChange cfg cache (.recvTimingReq req tick above)
        (next.allocateMissBuffer cfg pkt clearNoFill).mshrs
        (next.allocateMissBuffer cfg pkt clearNoFill).order := by
    have same := allocateMissBuffer_queue cfg pkt clearNoFill still
    rw [same.mshrs, same.order]
    refine .missed req tick above pkt clearNoFill carries cleared (free.imp_right fun none => ?_)
    rwa [findMshr, kept.mshrs] at none
  obtain ⟨_, outcome⟩ := handleTimingReqMiss_cases ret
  cases outcome with
  | fetched uncacheable =>
    exact allocated _ req false (kept.trans ⟨rfl, rfl⟩) (.inl rfl) (fun clear => by cases clear)
      (.inl uncacheable)
  | opened pkt _ _ free opens =>
    refine allocated _ pkt _ (kept.trans ?_) ?_ (fun clear => by simpa using clear) (.inr ?_)
    · cases place <;> exact ⟨rfl, rfl⟩
    · rcases opens with same | ⟨_, copy⟩
      · exact .inl same
      · exact .inr copy
    · rcases opens with rfl | ⟨_, rfl⟩ <;> exact free
  | joined entry mshr _ _ hit added =>
    have hit : cache.findMshr (req.line cfg.blkSize) = some entry := by
      rwa [findMshr, kept.mshrs] at hit
    rw [kept.order] at added
    have list : (start.setMshr entry.id mshr).mshrs = (cache.setMshr entry.id mshr).mshrs := by
      simp only [setMshr, kept.mshrs]
    have coalesced : MshrChange cfg cache _ _ _ := .coalesced req tick above entry mshr hit added
    rw [← list, ← kept.order] at coalesced
    exact coalesced
  | _ => exact .of_kept (kept.trans ⟨rfl, rfl⟩) rfl

theorem recvTimingReq_mshrs (ret : cache.recvTimingReq rp cfg above req tick = .ok (after, sent)) :
    MshrChange cfg cache (.recvTimingReq req tick above) after.mshrs after.order := by
  obtain ⟨found, accessed, ret⟩ := bind_ok_iff.mp ret
  have kept : QueueKept cache (found.cache.doWritebacks above found.writebacks) :=
    (access_queue accessed).trans ⟨rfl, rfl⟩
  dsimp only at ret
  split at ret
  · cases ret
    exact .of_kept kept rfl
  next missed =>
    rw [access_missed (by simpa using missed) accessed]
      at ret
    exact handleTimingReqMiss_mshrs req tick above kept ret

end Request

theorem recvTimingResp_mshrs {sent : List Packet}
    (ret : cache.recvTimingResp rp cfg above id pkt tick = .ok (after, sent)) :
    MshrChange cfg cache (.recvTimingResp id pkt tick above) after.mshrs after.order := by
  obtain ⟨r⟩ := recvTimingResp_ok ret
  have filled := fillStage_queue r.fills
  have list := r.mshrs filled.mshrs
  rw [r.order, filled.order]
  -- an MSHR without deferred targets is gone, else these are its targets now
  cases promoted : r.left.promoteDeferredTargets with
  | none =>
    rw [list, promoted]
    exact .freed id pkt tick above
  | some mshr =>
    rw [list, promoted]
    obtain ⟨entry, found, same⟩ := Option.bind_eq_some_iff.mp r.answered
    obtain ⟨moved, promotes⟩ := promoteStage_promotes r.promotes
    split at same
    · rw [← Option.some.inj same] at promotes
      exact .retired id pkt tick above entry moved r.resp.cmd r.ready r.promoted r.left mshr found
        promotes r.extracts promoted
    · cases same

theorem sendMSHRQueuePacket_mshrs {pendingModifiedResp : Bool}
    (ret : cache.sendMSHRQueuePacket rp cfg above id pendingModifiedResp = .ok (after, sent)) :
    MshrChange cfg cache (.sendMSHRQueuePacket id pendingModifiedResp above) after.mshrs
      after.order := by
  obtain ⟨entry, _, isForward, _, found, idle, _, _, outcome⟩ := sendMSHRQueuePacket_cases ret
  cases outcome <;> exact .sent id pendingModifiedResp above entry isForward found idle

variable (cfg) in
theorem snoopWrite_queue (cache : Cache R) (pkt : Packet) :
    QueueKept cache (cache.snoopWrite cfg pkt) := by
  unfold snoopWrite
  split
  · exact ⟨rfl, rfl⟩
  · split_ifs <;> exact ⟨rfl, rfl⟩

variable (cfg) in
theorem snoopWrite_tags (cache : Cache R) (pkt : Packet) :
    (cache.snoopWrite cfg pkt).tags = cache.tags := by
  unfold snoopWrite
  split
  · rfl
  · split_ifs <;> rfl

theorem snoopBlock_queue (cache : Cache R) (above : Packet → Bool) (key : LineKey)
    (pkt : Packet) : QueueKept cache (cache.snoopBlock rp cfg above key pkt) := by
  have written := snoopWrite_queue cfg cache pkt
  unfold snoopBlock
  dsimp only
  split
  · exact ⟨rfl, rfl⟩
  · split
    · exact written.trans (replaySnoop_frame rp cfg above _ pkt _).queue
    · exact written

theorem recvTimingSnoopReq_mshrs (ret : cache.recvTimingSnoopReq rp cfg above pkt = .ok after) :
    MshrChange cfg cache (.recvTimingSnoopReq pkt above) after.mshrs after.order := by
  cases recvTimingSnoopReq_cases ret with
  | alone => exact .of_kept (snoopBlock_queue cache above _ pkt) rfl
  | skipped => exact .same _ rfl
  | kept entry result hit handled => exact .snooped pkt above entry result hit handled
  | passed entry result hit handled =>
    -- the block is no part of the MSHRs
    rw [(snoopBlock_queue _ above _ result.pkt).mshrs,
      (snoopBlock_queue _ above _ result.pkt).order]
    exact .snooped pkt above entry result hit handled

/-! ### Events that touch the MSHRs only -/

structure BlocksKept (before after : Cache R) : Prop where
  tags : after.tags = before.tags
  writeBuffer : after.writeBuffer = before.writeBuffer

theorem recvPfAck_blocks (ret : cache.recvPfAck cfg pkt = .ok after) : BlocksKept cache after := by
  unfold recvPfAck at ret
  split at ret
  · cases ret
  · split at ret <;> cases ret
    · split <;> exact ⟨rfl, rfl⟩
    · exact ⟨rfl, rfl⟩

theorem issuePrefetch_blocks (cache : Cache R) (line : LineKey) :
    BlocksKept cache (cache.issuePrefetch rp cfg line).1 := by
  unfold issuePrefetch
  dsimp only
  split
  · split <;> exact ⟨rfl, rfl⟩
  · split <;> exact ⟨rfl, rfl⟩

theorem squashPrefetch_blocks (ret : cache.squashPrefetch id = .ok after) :
    BlocksKept cache after := by
  obtain ⟨_, _, ret⟩ := bind_ok_iff.mp ret
  obtain ⟨_, _, ret⟩ := bind_ok_iff.mp ret
  split at ret
  · cases ret
  · obtain ⟨_, _, ret⟩ := bind_ok_iff.mp ret
    split at ret <;> cases ret <;> exact ⟨rfl, rfl⟩

theorem recvPfAck_mshrs (ret : cache.recvPfAck cfg pkt = .ok after) :
    MshrChange cfg cache (.recvPfAck pkt) after.mshrs after.order := by
  unfold recvPfAck at ret
  split at ret
  · cases ret
  · split at ret <;> cases ret
    next entry hit =>
      -- the acknowledgement is a permission, which only a cache with the feature heeds
      split
      next enabled => exact .granted _ entry (by simpa only [grantee, enabled, if_true] using hit)
      next => exact .same _ rfl
    next => exact .same _ rfl

theorem issuePrefetch_mshrs {line : LineKey}
    (ret : cache.issuePrefetch rp cfg line = (after, sent)) :
    MshrChange cfg cache (.issuePrefetch line) after.mshrs after.order := by
  unfold issuePrefetch at ret
  dsimp only at ret
  split at ret
  next entry hit =>
    -- a prefetch of a line that an MSHR waits for is a permission to fill
    split at ret <;> cases ret
    next enabled => exact .granted _ entry (by simpa only [grantee, enabled, if_true] using hit)
    next => exact .same _ rfl
  next free =>
    split at ret <;> cases ret
    · exact .same _ rfl
    · exact .fetched line free

theorem squashPrefetch_mshrs (ret : cache.squashPrefetch id = .ok after) :
    MshrChange cfg cache (.squashPrefetch id) after.mshrs after.order := by
  obtain ⟨entry, found, ret⟩ := bind_ok_iff.mp ret
  obtain ⟨_, _, ret⟩ := bind_ok_iff.mp ret
  split at ret
  · cases ret
  next prefetch =>
    have idle : entry.mshr.inService = false := by
      rw [Bool.or_eq_true, not_or] at prefetch
      simpa using prefetch.1
    obtain ⟨_, popped, ret⟩ := bind_ok_iff.mp ret
    rw [orFail_ok_iff] at found popped
    -- the MSHR goes with its last target
    split at ret <;> cases ret
    · exact .squashed id entry _ found popped idle
    · exact .dropped id

/-- What a step can do to the MSHRs. -/
theorem handle_mshrs (ret : cache.handle rp cfg e = .ok (after, sent)) :
    MshrChange cfg cache e after.mshrs after.order := by
  cases e with
  | recvTimingReq pkt tick above =>
    exact recvTimingReq_mshrs pkt tick above ret
  | recvTimingResp =>
    obtain ⟨⟨_, _⟩, handled, same⟩ := map_ok_iff.mp ret
    cases same
    exact recvTimingResp_mshrs handled
  | sendMSHRQueuePacket =>
    exact sendMSHRQueuePacket_mshrs ret
  | sendWriteQueuePacket =>
    obtain ⟨_, _, ret⟩ := bind_ok_iff.mp ret
    cases ret
    exact .same _ rfl
  | recvPfAck =>
    obtain ⟨_, handled, same⟩ := map_ok_iff.mp ret
    cases same
    exact recvPfAck_mshrs handled
  | issuePrefetch line =>
    have single : cache.issuePrefetch rp cfg line = (after, sent) := by
      simpa [handle] using ret
    exact issuePrefetch_mshrs single
  | squashPrefetch =>
    obtain ⟨_, handled, same⟩ := map_ok_iff.mp ret
    cases same
    exact squashPrefetch_mshrs handled
  | recvTimingSnoopReq =>
    obtain ⟨_, handled, same⟩ := map_ok_iff.mp ret
    cases same
    exact recvTimingSnoopReq_mshrs handled
  | setDownstreamPending id pending =>
    cases ret
    exact .pended id pending

end Cache

end RasCache.Mem
