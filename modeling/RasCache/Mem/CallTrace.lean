import RasCache.Mem.QueueCalls
import RasCache.Mem.Tracking
import RasCache.Mem.TargetBound

/-!
# The queue calls of an event

`calls` lists the calls on the queues that the handling of an event makes, in the
order of the source. It reads them off the stages of the cache: within one stage
the write buffer only loses or only gains entries. `calls_account` says that the
calls account for every entry.
-/
namespace RasCache.Mem

open Outcomes

variable {R : Type} {e : CacheEvent} {sent : Sent}

namespace Cache

variable (rp : ReplacementPolicy R) (cfg : CacheParams)

/-! ### Stages -/

/-- The cache once `access` has returned. -/
def accessed (cache : Cache R) (pkt : Packet) (tick : Nat) : Cache R :=
  match cache.access rp cfg pkt tick with
  | .ok found => found.cache
  | .error _ => cache

/-- The cache once `serviceMSHRTargets` has returned. The snoops among the targets
may have written a dirty block back. -/
def serviceStage (above : Packet → Bool) (cache : Cache R) (id : Nat) (pkt : Packet) (tick : Nat) :
    Except Failure (Cache R) := do
  let mshr ← orFail (cache.answered id pkt)
  let (ref, cache, _, pkt) ← cache.fillStage rp cfg mshr pkt tick
  let (mshr, cache) ← promoteStage mshr pkt ref cache
  let (ready, _) ← orFail (mshr.extractServiceableTargets pkt.cmd)
  let (cache, _) ← cache.serviceMSHRTargets rp cfg above mshr pkt ref ready
  .ok cache

def serviced (above : Packet → Bool) (cache : Cache R) (id : Nat) (pkt : Packet) (tick : Nat) :
    Cache R :=
  match cache.serviceStage rp cfg above id pkt tick with
  | .ok next => next
  | .error _ => cache

/-- The cache once a snoop has gone through the write buffer. -/
def writesSnooped (cache : Cache R) (pkt : Packet) : Cache R :=
  let key := pkt.line cfg.blkSize
  let snoop (pkt : Packet) : Cache R :=
    if pkt.isEviction && (cache.findWrite cfg key).isSome then cache
    else cache.snoopWrite cfg pkt
  match cache.findMshr key with
  | none => snoop pkt
  | some e =>
    if pkt.mustCheckAbove then cache
    else
      match e.mshr.handleSnoop pkt cache.order with
      | some result => if result.willRespond then cache else snoop result.pkt
      | none => cache

/-! ### Calls -/

/-- The entries of the write buffer that are freed, or those that are allocated. -/
def writeCalls (before after : Cache R) : List QueueCall :=
  List.replicate (before.writeBuffer.length - after.writeBuffer.length) .markInServiceWrite ++
    List.replicate (after.writeBuffer.length - before.writeBuffer.length) .allocateWriteBuffer

/-- The MSHRs that are allocated. -/
def missCalls (before after : Cache R) : List QueueCall :=
  (after.mshrs.drop before.mshrs.length).map fun e => .allocateMissBuffer e.id

/-- A request that joins an MSHR, with the test of `handleTimingReqMiss` behind it. -/
def joinCalls (tgtsPerMSHR : Nat) (before after : Cache R) (pkt : Packet) (tick : Nat) :
    List QueueCall :=
  match before.joined rp cfg pkt tick with
  | some e =>
    [.coalesce e.id (Limited.filled rp cfg tgtsPerMSHR before after pkt tick).isSome]
  | none => []

/-- The calls of the event that takes the cache from `before` to `after`. -/
def calls (tgtsPerMSHR : Nat) (before : Cache R) (e : CacheEvent) (after : Cache R) :
    List QueueCall :=
  match e with
  | .recvTimingReq pkt tick _ =>
    -- the writebacks precede the miss
    let found := before.accessed rp cfg pkt tick
    writeCalls before found ++ writeCalls found after ++ missCalls before after ++
      joinCalls rp cfg tgtsPerMSHR before after pkt tick
  | .recvTimingResp id pkt tick above =>
    -- the block that was replaced is written back after the MSHR is freed
    let served := before.serviced rp cfg above id pkt tick
    [.answer id] ++ writeCalls before served ++
      (if (after.findId id).isNone then [.deallocate id] else []) ++ writeCalls served after
  | .sendMSHRQueuePacket id _ _ => [.markInService id] ++ writeCalls before after
  | .sendWriteQueuePacket _ => writeCalls before after
  | .recvPfAck _ => []
  | .issuePrefetch _ => missCalls before after
  | .squashPrefetch id => [.forceDeallocateTarget id (after.findId id).isNone]
  | .recvTimingSnoopReq pkt _ =>
    let snooped := before.writesSnooped cfg pkt
    writeCalls before snooped ++ writeCalls snooped after
  | .setDownstreamPending _ _ => []

/-! ### The MSHRs -/

def ids (cache : Cache R) : List Nat := cache.mshrs.map MshrEntry.id

theorem pended_ids (cache : Cache R) (id : Nat) (pending : Bool) :
    (cache.mshrs.map fun e =>
      if e.id = id then { e with mshr := { e.mshr with downstreamPending := pending } }
      else e).map MshrEntry.id = cache.ids := by
  rw [ids, List.map_map]
  refine List.map_congr_left fun entry _ => ?_
  simp only [Function.comp_apply]
  split <;> rfl

theorem findId_isNone (cache : Cache R) (id : Nat) :
    (cache.findId id).isNone = true ↔ id ∉ cache.ids := by
  rw [Option.isNone_iff_eq_none, findId, List.find?_eq_none, ids]
  simp only [decide_eq_true_eq, List.mem_map, not_exists, not_and]

theorem removeMshr_ids (cache : Cache R) (id : Nat) :
    (cache.removeMshr id).ids = cache.ids.filter fun other => decide (other ≠ id) := by
  rw [ids, ids, removeMshr, List.filter_map]
  rfl

variable {cache after : Cache R} {id : Nat}

theorem ids_set {mshr : Mshr} {entry : MshrEntry} (found : cache.findId id = some entry)
    (list : after.mshrs = (cache.setMshr id mshr).mshrs) :
    after.ids = if (after.findId id).isNone then cache.ids.filter fun other => decide (other ≠ id)
      else cache.ids := by
  have same : after.ids = cache.ids := by
    rw [ids, list, setMshr_ids, ids]
  have mem : id ∈ after.ids := by
    rw [same, ids, ← (findId_mem found).2]
    exact List.mem_map_of_mem (findId_mem found).1
  rw [if_neg, same]
  rw [findId_isNone, not_not]
  exact mem

theorem ids_removed {cache : Cache R} {id : Nat}
    (list : after.mshrs = (cache.removeMshr id).mshrs) :
    after.ids = if (after.findId id).isNone then cache.ids.filter fun other => decide (other ≠ id)
      else cache.ids := by
  have left : after.ids = cache.ids.filter fun other => decide (other ≠ id) := by
    rw [← removeMshr_ids, ids, list, ids]
  rw [if_pos, left]
  rw [findId_isNone, left]
  simp

theorem recvTimingResp_ids {pkt : Packet} {tick : Nat} {above : Packet → Bool} {sent : List Packet}
    (ret : cache.recvTimingResp rp cfg above id pkt tick = .ok (after, sent)) :
    after.ids = if (after.findId id).isNone then cache.ids.filter fun other => decide (other ≠ id)
      else cache.ids := by
  have change := recvTimingResp_mshrs ret
  generalize list : after.mshrs = mshrs at change
  generalize after.order = order at change
  cases change with
  | same _ other => cases other
  | granted _ _ hit => cases hit
  | retired _ _ _ _ _ _ _ _ _ _ _ found => exact ids_set found list
  | freed => exact ids_removed list

theorem squashPrefetch_ids (ret : cache.squashPrefetch id = .ok after) :
    after.ids = if (after.findId id).isNone then cache.ids.filter fun other => decide (other ≠ id)
      else cache.ids := by
  obtain ⟨_, found, ret⟩ := bind_ok_iff.mp ret
  obtain ⟨_, _, ret⟩ := bind_ok_iff.mp ret
  split at ret
  · cases ret
  · obtain ⟨_, _, ret⟩ := bind_ok_iff.mp ret
    split at ret <;> cases ret
    · exact ids_set (orFail_ok_iff.mp found) rfl
    · exact ids_removed rfl

/-- The events that may allocate an MSHR. -/
def opens : CacheEvent → Bool
  | .recvTimingReq _ _ _ | .issuePrefetch _ => true
  | _ => false

/-- The events that may free one. -/
def retires : CacheEvent → Bool
  | .recvTimingResp _ _ _ _ | .squashPrefetch _ => true
  | _ => false

theorem handle_ids (stay : retires e = false)
    (handled : cache.handle rp cfg e = .ok (after, sent)) :
    after.ids = cache.ids ∨ opens e = true ∧ after.ids = cache.ids ++ [cache.order] := by
  have change := handle_mshrs handled
  have replaced (id : Nat) (mshr : Mshr) (list : after.mshrs = (cache.setMshr id mshr).mshrs) :
      after.ids = cache.ids := by
    rw [ids, list, setMshr_ids, ids]
  have allocated (pkt : Packet) (clearNoFill : Bool)
      (list : after.mshrs = (cache.allocateMissBuffer cfg pkt clearNoFill).mshrs) :
      after.ids = cache.ids ++ [cache.order] := by
    rw [ids, list, allocateMissBuffer, List.map_append]
    rfl
  -- an MSHR keeps its number, and a new one gets the next
  generalize list : after.mshrs = mshrs at change
  generalize after.order = order at change
  cases change with
  | same => exact .inl (congrArg (List.map MshrEntry.id) list)
  | missed _ _ _ pkt clearNoFill => exact .inr ⟨rfl, allocated pkt clearNoFill list⟩
  | fetched => exact .inr ⟨rfl, allocated _ true list⟩
  | coalesced => exact .inl (replaced _ _ list)
  | sent => exact .inl (replaced _ _ list)
  | granted => exact .inl (replaced _ _ list)
  | retired => cases stay
  | freed => cases stay
  | squashed => cases stay
  | dropped => cases stay
  | snooped => exact .inl (replaced _ _ list)
  | pended id pending =>
    left
    rw [← pended_ids cache id pending, ids, list]

end Cache

/-! ### The accounts -/

namespace QueueEntries

variable (entries : QueueEntries)

theorem foldl_allocateWriteBuffer (n : Nat) :
    (List.replicate n QueueCall.allocateWriteBuffer).foldl apply entries =
      { entries with writes := entries.writes + n } := by
  induction n generalizing entries with
  | zero => rfl
  | succ _ ih =>
    rw [List.replicate_succ, List.foldl_cons, ih]
    simp only [apply, mk.injEq, true_and, and_true]
    omega

theorem foldl_markInServiceWrite (n : Nat) :
    (List.replicate n QueueCall.markInServiceWrite).foldl apply entries =
      { entries with writes := entries.writes - n } := by
  induction n generalizing entries with
  | zero => rfl
  | succ _ ih =>
    rw [List.replicate_succ, List.foldl_cons, ih]
    simp only [apply, mk.injEq, true_and, and_true]
    omega

theorem foldl_allocateMissBuffer (list : List MshrEntry) :
    (list.map fun e => QueueCall.allocateMissBuffer e.id).foldl apply entries =
      { entries with mshrs := entries.mshrs ++ list.map MshrEntry.id } := by
  induction list generalizing entries with
  | nil => simp
  | cons _ _ ih =>
    rw [List.map_cons, List.foldl_cons, ih]
    simp [apply]

theorem foldl_writeCalls (before after : Cache R)
    (known : entries.writes = before.writeBuffer.length) :
    (Cache.writeCalls before after).foldl apply entries =
      { entries with writes := after.writeBuffer.length } := by
  rw [Cache.writeCalls, List.foldl_append, foldl_markInServiceWrite, foldl_allocateWriteBuffer]
  simp only [mk.injEq, true_and, and_true]
  omega

end QueueEntries

namespace Cache

/-- The entries of the queues, with the MSHR that takes no more targets. -/
def entries (cache : Cache R) (noTargetMSHR : Option Nat) : QueueEntries :=
  ⟨cache.ids, cache.writeBuffer.length, noTargetMSHR⟩

variable (rp : ReplacementPolicy R) (cfg : CacheParams) (tgtsPerMSHR : Nat)

/-- `noTargetMSHR` after the event. -/
def noTargetAfter (before : Cache R) (e : CacheEvent) (after : Cache R)
    (noTargetMSHR : Option Nat) : Option Nat :=
  match e with
  | .recvTimingReq pkt tick _ =>
    (Limited.filled rp cfg tgtsPerMSHR before after pkt tick).or noTargetMSHR
  | .recvTimingResp id _ _ _ => if noTargetMSHR = some id then none else noTargetMSHR
  | _ => noTargetMSHR

theorem foldl_joinCalls (entries : QueueEntries) (before after : Cache R) (pkt : Packet)
    (tick : Nat) :
    (joinCalls rp cfg tgtsPerMSHR before after pkt tick).foldl QueueEntries.apply entries =
      { entries with
        noTargetMSHR := (Limited.filled rp cfg tgtsPerMSHR before after pkt tick).or
          entries.noTargetMSHR } := by
  unfold joinCalls Limited.filled
  cases before.joined rp cfg pkt tick with
  | none => rfl
  | some =>
    simp only [List.foldl_cons, List.foldl_nil, QueueEntries.apply, Option.filter_some]
    split <;> rfl

/-- The calls of an event account for every entry. -/
theorem calls_account {cache after : Cache R} (target : Option Nat)
    (handled : cache.handle rp cfg e = .ok (after, sent)) :
    (cache.calls rp cfg tgtsPerMSHR e after).foldl QueueEntries.apply (cache.entries target) =
      after.entries (cache.noTargetAfter rp cfg tgtsPerMSHR e after target) := by
  -- the numbers after an event that may allocate an MSHR
  have grown (stay : retires e = false) :
      cache.ids ++ (after.mshrs.drop cache.mshrs.length).map MshrEntry.id = after.ids := by
    rw [List.map_drop, show cache.mshrs.length = cache.ids.length from (List.length_map _).symm]
    rcases handle_ids rp cfg stay handled with same | ⟨_, new⟩
    · rw [← ids, same, List.drop_length, List.append_nil]
    · rw [← ids, new, List.drop_left]
  have kept (closed : opens e = false) (stay : retires e = false) : after.ids = cache.ids := by
    rcases handle_ids rp cfg stay handled with same | ⟨opened, _⟩
    · exact same
    · rw [closed] at opened
      cases opened
  cases e with
  | recvTimingReq =>
    simp only [calls, List.foldl_append, missCalls]
    rw [QueueEntries.foldl_writeCalls _ cache _ rfl, QueueEntries.foldl_writeCalls _ _ after rfl,
      QueueEntries.foldl_allocateMissBuffer, foldl_joinCalls]
    simp only [entries, noTargetAfter, grown rfl]
  | recvTimingResp id =>
    obtain ⟨⟨next, _⟩, ret, same⟩ := map_ok_iff.mp handled
    cases same
    have left := recvTimingResp_ids rp cfg ret
    have answered : (cache.entries target).apply (.answer id) =
        cache.entries (if target = some id then none else target) := by
      by_cases hit : target = some id <;>
        simp only [QueueEntries.apply, entries, hit, if_true, if_false]
    simp only [calls, List.foldl_append, List.foldl_cons, List.foldl_nil, answered]
    rw [QueueEntries.foldl_writeCalls _ cache _ rfl]
    split at left
    next freed =>
      rw [if_pos freed, List.foldl_cons, List.foldl_nil,
        QueueEntries.foldl_writeCalls _ _ after rfl]
      simp only [QueueEntries.apply, QueueEntries.removeMshr, entries, noTargetAfter, left]
    next stays =>
      rw [if_neg stays, List.foldl_nil, QueueEntries.foldl_writeCalls _ _ after rfl]
      simp only [entries, noTargetAfter, left]
  | sendMSHRQueuePacket =>
    simp only [calls, List.foldl_append, List.foldl_cons, List.foldl_nil, QueueEntries.apply]
    rw [QueueEntries.foldl_writeCalls _ cache after rfl]
    simp only [entries, noTargetAfter, kept rfl rfl]
  | sendWriteQueuePacket =>
    simp only [calls]
    rw [QueueEntries.foldl_writeCalls _ cache after rfl]
    simp only [entries, noTargetAfter, kept rfl rfl]
  | recvPfAck =>
    obtain ⟨_, ret, same⟩ := map_ok_iff.mp handled
    cases same
    have blocks := recvPfAck_blocks ret
    simp only [calls, List.foldl_nil, entries, noTargetAfter, kept rfl rfl, blocks.writeBuffer]
  | issuePrefetch line =>
    have issued : (cache.issuePrefetch rp cfg line).1 = after :=
      congrArg Prod.fst (Except.ok.inj handled)
    have blocks : BlocksKept cache after := by
      rw [← issued]
      exact issuePrefetch_blocks cache line
    simp only [calls, missCalls]
    rw [QueueEntries.foldl_allocateMissBuffer]
    simp only [entries, noTargetAfter, grown rfl, blocks.writeBuffer]
  | squashPrefetch =>
    obtain ⟨next, ret, same⟩ := map_ok_iff.mp handled
    cases same
    have blocks := squashPrefetch_blocks ret
    have left := squashPrefetch_ids ret
    simp only [calls, List.foldl_cons, List.foldl_nil, QueueEntries.apply]
    split at left
    next freed =>
      rw [if_pos freed]
      simp only [QueueEntries.removeMshr, entries, noTargetAfter, left, blocks.writeBuffer]
    next stays =>
      rw [if_neg stays]
      simp only [entries, noTargetAfter, left, blocks.writeBuffer]
  | recvTimingSnoopReq =>
    simp only [calls, List.foldl_append]
    rw [QueueEntries.foldl_writeCalls _ cache _ rfl, QueueEntries.foldl_writeCalls _ _ after rfl]
    simp only [entries, noTargetAfter, kept rfl rfl]
  | setDownstreamPending =>
    obtain rfl : _ = after := congrArg Prod.fst (Except.ok.inj handled)
    simp only [calls, List.foldl_nil, entries, noTargetAfter, kept rfl rfl]

end Cache

end RasCache.Mem
