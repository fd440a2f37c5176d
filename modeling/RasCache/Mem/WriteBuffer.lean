import RasCache.Mem.Line

/-!
# The packets of the write buffer

What enters the write buffer is an eviction or a WriteClean of the cache's own, or
a request that goes on as it came: it is uncacheable, an eviction or a WriteClean.
Inside, only the marks for copies elsewhere change. So a property of packets that
these marks do not touch holds of the whole buffer, in every run.
-/
namespace RasCache.Mem.Cache

open Outcomes

variable {R : Type} (rp : ReplacementPolicy R) (cfg : CacheParams)

/-- Every packet of the write buffer satisfies `P`. -/
def Writes (P : Packet → Prop) (cache : Cache R) : Prop := ∀ pkt ∈ cache.writeBuffer, P pkt

/-- `P` holds of the packets a cache makes for its write buffer, and the marks for
copies elsewhere do not matter to it. The eviction of the temporary block is marked
MAY_NOT_FILL. -/
structure WriteRule (P : Packet → Prop) : Prop where
  evicted (blk : CacheBlk) (mayNotFill : Bool) :
    P { evictionPacket cfg blk with mayNotFill }
  cleaned (blk : CacheBlk) (pkt : Packet) : P (writecleanPacket cfg blk pkt)
  marked (pkt : Packet) (hasSharers blockCached : Bool) (holds : P pkt) :
    P { pkt with hasSharers, blockCached }

theorem evictionPacket_isEviction (blk : CacheBlk) :
    (evictionPacket cfg blk).isEviction = true := by
  unfold evictionPacket Packet.isEviction
  dsimp only
  split_ifs <;> rfl

/-! ### The code that leaves the write buffer alone -/

@[simp] theorem invalidateBlock_writeBuffer (cache : Cache R) (ref : BlkRef) :
    (cache.invalidateBlock rp ref).writeBuffer = cache.writeBuffer := by
  cases ref <;> rfl

variable {rp cfg} {cache after : Cache R} {pkt : Packet}

theorem satisfyRequest_writes {out : Packet} {ref : BlkRef} {deferred down : Bool}
    (ret : cache.satisfyRequest rp cfg pkt ref deferred down = .ok (after, out)) :
    after.writeBuffer = cache.writeBuffer := by
  unfold satisfyRequest at ret
  split at ret
  · cases ret
  · obtain ⟨⟨based, _⟩, base, ret⟩ := bind_ok_iff.mp ret
    have first : based.writeBuffer = cache.writeBuffer := by
      unfold satisfyBase at base
      dsimp only at base
      split_ifs at base <;> cases base <;> simp
    dsimp only at ret
    split at ret
    · split at ret
      · cases ret
      · unfold grantRead at ret
        dsimp only at ret
        rw [← first]
        split_ifs at ret <;> cases ret <;> simp
    · cases ret
      exact first

theorem maintainClusivity_writes (cache : Cache R) (fromCache : Bool) (ref : BlkRef) :
    (cache.maintainClusivity rp cfg fromCache ref).writeBuffer = cache.writeBuffer := by
  unfold maintainClusivity
  dsimp only
  split <;> simp

variable {ref : Option BlkRef} {mshr : Mshr}

theorem serviceRequest_writes {resp : Packet} {out : Packet}
    (ret : cache.serviceRequest rp cfg mshr resp ref pkt = .ok (after, out)) :
    after.writeBuffer = cache.writeBuffer := by
  cases serviceRequest_cases rp cfg ret with
  | satisfied _ _ _ _ request =>
    exact satisfyRequest_writes request
  | failed => rfl
  | copied => rfl
  | invalidated used => exact invalidateBlock_writeBuffer rp cache used

theorem settleBlock_writes (mshr : Mshr) (resp : Packet) (hasFromCache : Bool) (cache : Cache R)
    (ref : BlkRef) : (cache.settleBlock rp cfg mshr resp hasFromCache ref).writeBuffer =
      cache.writeBuffer := by
  unfold settleBlock
  dsimp only
  split_ifs <;> simp [maintainClusivity_writes]

theorem promoteStage_writes {promoted : Mshr}
    (ret : promoteStage mshr pkt ref cache = .ok (promoted, after)) :
    after.writeBuffer = cache.writeBuffer := by
  obtain ⟨⟨_, _⟩, first, ret⟩ := bind_ok_iff.mp ret
  obtain ⟨_, _, ret⟩ := bind_ok_iff.mp ret
  cases ret
  unfold readableStage at first
  split at first
  · obtain ⟨_, _, same⟩ := map_ok_iff.mp first
    cases same
    exact setBlk_writeBuffer cache _ _
  · cases first
    rfl

theorem blockForWrite_writes {place out : Option Place} {tick : Nat} {writebacks : List Packet}
    (ret : cache.blockForWrite rp cfg pkt place tick = .ok (out, after, writebacks)) :
    after.writeBuffer = cache.writeBuffer := by
  cases blockForWrite_cases ret with
  | present => rfl
  | denied => rfl
  | refused _ _ took => exact allocateBlock_writes took
  | allocated _ room _ took =>
    have kept := allocateBlock_writes took
    exact (setBlk_writeBuffer room _ _).trans kept

theorem BlkAccess.writes {place : Option Place} {tick : Nat} {found : Access R}
    (outcome : BlkAccess rp cfg cache pkt place tick found) :
    found.cache.writeBuffer = cache.writeBuffer := by
  cases outcome with
  | unplaced _ _ _ took =>
    exact blockForWrite_writes took
  | written _ room _ _ took =>
    exact (setBlk_writeBuffer room _ _).trans (blockForWrite_writes took)
  | satisfied _ after _ _ _ _ request =>
    exact (maintainClusivity_writes after _ _).trans (satisfyRequest_writes request)
  | _ => rfl

section Rule

variable {P : Packet → Prop} (rule : WriteRule cfg P)

theorem empty_writes (repl : R) : (Cache.empty repl).Writes P := by
  intro _ mem
  cases mem

variable {after cache : Cache R} {tick : Nat} {place : Option Place} {writebacks : List Packet}
  {pkt : Packet}

theorem Writes.of_eq {before : Cache R} (writes : before.Writes P)
    (same : after.writeBuffer = before.writeBuffer) : after.Writes P := by
  intro pkt mem
  rw [same] at mem
  exact writes pkt mem

theorem Writes.pushed (writes : cache.Writes P) (new : Packet) (holds : P new) :
    ∀ pkt ∈ cache.writeBuffer ++ [new], P pkt :=
  List.forall_mem_append.mpr ⟨writes, List.forall_mem_singleton.mpr holds⟩

include rule

/-! ### Writebacks -/

variable (writes : cache.Writes P) (above : Packet → Bool)

include writes in
theorem Writes.doWritebacks (writebacks : List Packet) (holds : ∀ wb ∈ writebacks, P wb) :
    (cache.doWritebacks above writebacks).Writes P := by
  intro pkt mem
  rcases List.mem_append.mp mem with old | new
  · exact writes pkt old
  · obtain ⟨wb, pushed, passed⟩ := List.mem_filterMap.mp new
    split at passed
    · -- the packet is marked, because the block is cached above
      split at passed <;> cases passed
      exact rule.marked wb wb.hasSharers true (holds wb pushed)
    · cases passed
      exact holds pkt pushed

include writes in
/-- The answer to a snoop that cleans the block is a WriteClean. -/
theorem Writes.replaySnoop (pkt : Packet)
    (ref : BlkRef) : (cache.replaySnoop rp cfg above pkt ref).Writes P := by
  have ended (invalidates : Bool) (middle : Cache R) (so_far : middle.Writes P) :
      (if invalidates then middle.invalidateBlock rp ref else middle).Writes P := by
    split
    · exact so_far.of_eq (invalidateBlock_writeBuffer rp middle ref)
    · exact so_far
  unfold Cache.replaySnoop
  dsimp only
  split
  · exact writes
  · split
    · -- a clean request takes a dirty block to memory
      refine ended _ _ ?_
      split
      · have cleaned (blk : CacheBlk) := writes.of_eq (setBlk_writeBuffer cache ref blk)
        exact (cleaned _).doWritebacks rule above _
          (List.forall_mem_singleton.mpr (rule.cleaned _ pkt))
      · exact writes
    · split
      · exact writes
      · refine ended _ _ ?_
        split
        · exact writes.of_eq (setBlk_writeBuffer cache ref _)
        · exact writes

theorem allocateBlock_pushes {key : LineKey}
    (ret : cache.allocateBlock rp cfg key tick = .ok (place, after, writebacks)) :
    ∀ wb ∈ writebacks, P wb := by
  cases allocateBlock_cases ret with
  | refused => exact List.forall_mem_nil _
  | evicted => exact List.forall_mem_singleton.mpr (rule.evicted _ false)
  | unused => exact List.forall_mem_nil _

/-! ### Responses -/

include writes in
theorem Writes.serviceTarget (mshr : Mshr)
    (resp : Packet) (ref : Option BlkRef) (t : Target) (sent : List Packet)
    (ret : cache.serviceTarget rp cfg above mshr resp ref t = .ok (after, sent)) :
    after.Writes P := by
  cases serviceTarget_cases ret with
  | unused => exact writes
  | prefetched used => exact writes.of_eq (setBlk_writeBuffer cache used _)
  | claimed used => exact writes.of_eq (setBlk_writeBuffer cache used _)
  | answered _ _ _ _ _ _ request =>
    exact writes.of_eq (serviceRequest_writes request)
  -- only the snoop writes back
  | snooped used => exact writes.replaySnoop rule above t.pkt used

include writes in
theorem Writes.serviceTargets (mshr : Mshr)
    (resp : Packet) (ref : Option BlkRef) (targets : List Target) (sent : List Packet)
    (ret : cache.serviceTargets rp cfg above mshr resp ref targets = .ok (after, sent)) :
    after.Writes P := by
  induction targets generalizing cache sent with
  | nil =>
    cases ret
    exact writes
  | cons t _ ih =>
    obtain ⟨⟨_, first⟩, serviced, ret⟩ := bind_ok_iff.mp ret
    obtain ⟨⟨_, more⟩, looped, ret⟩ := bind_ok_iff.mp ret
    cases ret
    exact ih (writes.serviceTarget rule above mshr resp ref t first serviced) more looped

include writes in
theorem Writes.serviceMSHRTargets (mshr : Mshr)
    (resp : Packet) (ref : Option BlkRef) (ready : TargetList) (sent : List Packet)
    (ret : cache.serviceMSHRTargets rp cfg above mshr resp ref ready =
      .ok (after, sent)) : after.Writes P := by
  obtain ⟨⟨middle, up⟩, looped, settled⟩ := bind_ok_iff.mp ret
  have serviced := writes.serviceTargets rule above mshr resp ref _ up looped
  dsimp only at settled
  split at settled <;> cases settled
  · exact serviced.of_eq (settleBlock_writes mshr resp _ middle _)
  · exact serviced

theorem fillStage_pushes {filled : Cache R} {resp : Packet}
    (ret : cache.fillStage rp cfg mshr pkt tick = .ok (ref, filled, writebacks, resp)) :
    filled.writeBuffer = cache.writeBuffer ∧ ∀ wb ∈ writebacks, P wb := by
  cases fillStage_cases ret with
  | filled _ _ _ fill =>
    -- only a block that is allocated evicts another one
    generalize cache.tags.findBlock rp (pkt.line cfg.blkSize) = place at fill
    generalize cache.allocates cfg mshr pkt = allocate at fill
    cases handleFill_cases fill with
    | present => exact ⟨setBlk_writeBuffer cache _ _, fun wb mem => by cases mem⟩
    | allocated _ room writebacks _ took =>
      exact ⟨(setBlk_writeBuffer room _ _).trans (allocateBlock_writes took),
        allocateBlock_pushes rule took⟩
    | temporary _ room writebacks _ _ refused =>
      rcases refused with ⟨_, rfl, rfl⟩ | ⟨_, took⟩
      · exact ⟨rfl, fun wb mem => by cases mem⟩
      · have writes := allocateBlock_writes took
        exact ⟨writes, allocateBlock_pushes rule took⟩
  | passed => exact ⟨rfl, fun wb mem => by cases mem⟩

include writes in
theorem Writes.recvTimingResp (id : Nat) (pkt : Packet) (tick : Nat) (sent : List Packet)
    (ret : cache.recvTimingResp rp cfg above id pkt tick = .ok (after, sent)) : after.Writes P := by
  obtain ⟨r⟩ := recvTimingResp_ok ret
  obtain ⟨filled, holds⟩ := fillStage_pushes rule r.fills
  have readied := (writes.of_eq filled).of_eq (promoteStage_writes r.promotes)
  have serviced := readied.serviceMSHRTargets rule above r.promoted r.resp r.ref r.ready
    sent r.services
  have retired := serviced.of_eq (retireStage_writes id r.left r.ref r.serviced)
  rw [r.retires]
  refine (retired.of_eq (evictTemp_writes r.ref _)).doWritebacks rule above _ ?_
  intro wb mem
  rcases List.mem_append.mp mem with early | late
  · exact holds wb early
  · -- the temporary block leaves again
    unfold evictTemp at late
    split at late
    · obtain rfl := List.mem_singleton.mp late
      exact rule.evicted _ true
    · cases late

/-! ### Requests -/

theorem blockForWrite_pushes {out : Option Place}
    (ret : cache.blockForWrite rp cfg pkt place tick = .ok (out, after, writebacks)) :
    ∀ wb ∈ writebacks, P wb := by
  cases blockForWrite_cases ret with
  | present => exact fun wb mem => by cases mem
  | denied => exact fun wb mem => by cases mem
  | refused _ _ took => exact allocateBlock_pushes rule took
  | allocated _ _ _ took => exact allocateBlock_pushes rule took

theorem BlkAccess.pushes {found : Access R}
    (outcome : BlkAccess rp cfg cache pkt place tick found) : ∀ wb ∈ found.writebacks, P wb := by
  intro wb mem
  cases outcome with
  | unplaced _ _ _ took =>
    exact blockForWrite_pushes rule took wb mem
  | written _ _ _ _ took =>
    exact blockForWrite_pushes rule took wb mem
  | _ => cases mem

theorem Writes.access (writes : cache.Writes P) (pkt : Packet) (tick : Nat) (found : Access R)
    (ret : cache.access rp cfg pkt tick = .ok found) :
    found.cache.Writes P ∧ ∀ wb ∈ found.writebacks, P wb := by
  cases access_cases ret with
  | flushed =>
    exact ⟨writes.of_eq (invalidateBlock_writeBuffer rp cache _),
      List.forall_mem_singleton.mpr (rule.evicted _ false)⟩
  | bypassed => exact ⟨writes, fun wb mem => by cases mem⟩
  | maintenance => exact ⟨writes, fun wb mem => by cases mem⟩
  | merged wb =>
    -- a clean eviction ends here, and the block of the packet that waits is cached no more
    refine ⟨fun p mem => ?_, fun wb mem => by cases mem⟩
    obtain ⟨old, waits, rfl⟩ := List.mem_map.mp mem
    split
    · exact rule.marked old old.hasSharers false (writes old waits)
    · exact writes old waits
  | accessed start _ _ begins _ outcome =>
    -- a dirty writeback from above takes the place of the one that waits
    have first : start.Writes P := by
      rw [begins]
      split
      · unfold dropWrite
        split
        · exact fun p mem => writes p (List.mem_of_mem_erase mem)
        · exact writes
      · exact writes
    exact ⟨first.of_eq (outcome.writes), outcome.pushes rule⟩

include writes in
theorem Writes.recvTimingReq (pkt : Packet) (tick : Nat) (sent : Sent)
    (passes : pkt.req.flags.uncacheable = true ∨ pkt.cmd = .writeClean ∨ pkt.isEviction = true →
      P pkt) (ret : cache.recvTimingReq rp cfg above pkt tick = .ok (after, sent)) :
    after.Writes P := by
  obtain ⟨found, accessed, ret⟩ := bind_ok_iff.mp ret
  obtain ⟨first, holds⟩ := writes.access rule pkt tick found accessed
  have start := first.doWritebacks rule above found.writebacks holds
  dsimp only at ret
  split at ret
  · cases ret
    exact start
  next missed =>
    have same : found.pkt = pkt := access_missed (by simpa using missed) accessed
    rw [same] at ret
    obtain ⟨_, outcome⟩ := handleTimingReqMiss_cases ret
    cases outcome with
    -- a request is pushed itself only in the three cases it is a write that goes on
    | pushed direct =>
      refine start.pushed pkt (passes ?_)
      rcases direct with uncacheable | clean | ⟨evicts, _⟩
      · exact .inl uncacheable
      · exact .inr (.inl clean)
      · exact .inr (.inr evicts)
    | opened =>
      refine start.of_eq ?_
      cases found.place <;> rfl
    | _ => exact start

/-! ### Snoops -/

include writes in
theorem Writes.snoopBlock (key : LineKey)
    (pkt : Packet) : (cache.snoopBlock rp cfg above key pkt).Writes P := by
  have written : (cache.snoopWrite cfg pkt).Writes P := by
    unfold snoopWrite
    split
    · exact writes
    · split
      · exact fun p mem => writes p (List.mem_of_mem_erase mem)
      · split
        · intro _ mem
          obtain ⟨old, waits, rfl⟩ := List.mem_map.mp mem
          split
          · exact rule.marked old true old.blockCached (writes old waits)
          · exact writes old waits
        · exact writes
  unfold Cache.snoopBlock
  dsimp only
  split
  · exact writes
  · split
    · exact written.replaySnoop rule above pkt _
    · exact written

include writes in
theorem Writes.recvTimingSnoopReq (pkt : Packet)
    (ret : cache.recvTimingSnoopReq rp cfg above pkt = .ok after) : after.Writes P := by
  cases recvTimingSnoopReq_cases ret with
  | alone => exact writes.snoopBlock rule above _ pkt
  | skipped => exact writes
  | kept => exact writes
  | passed entry result =>
    have marked : ({ cache.setMshr entry.id result.mshr with
        order := cache.order + 1 } : Cache R).Writes P := writes
    exact marked.snoopBlock rule above _ result.pkt

/-- Whatever happens, the packets of the write buffer satisfy `P`, if a request
that may enter it does. -/
theorem Writes.handled (writes : cache.Writes P) (e : CacheEvent) (sent : Sent)
    (passes : ∀ pkt tick above, e = .recvTimingReq pkt tick above →
      pkt.req.flags.uncacheable = true ∨ pkt.cmd = .writeClean ∨ pkt.isEviction = true → P pkt)
    (handled : cache.handle rp cfg e = .ok (after, sent)) : after.Writes P := by
  cases e with
  | recvTimingReq pkt tick above =>
    exact writes.recvTimingReq rule above pkt tick sent (passes pkt tick above rfl) handled
  | recvTimingResp id pkt tick above =>
    obtain ⟨⟨_, up⟩, answered, same⟩ := map_ok_iff.mp handled
    cases same
    exact writes.recvTimingResp rule above id pkt tick up answered
  | sendMSHRQueuePacket =>
    obtain ⟨_, pkt, _, _, _, _, _, _, outcome⟩ := sendMSHRQueuePacket_cases handled
    cases outcome with
    | plain => exact writes
    -- a miss that cleans takes the dirty block along as a write of its own
    | cleaned =>
      apply Writes.doWritebacks rule
      · exact writes
      exact List.forall_mem_singleton.mpr (rule.cleaned _ pkt)
  | sendWriteQueuePacket =>
    obtain ⟨_, _, handled⟩ := bind_ok_iff.mp handled
    cases handled
    exact fun p mem => writes p (List.mem_of_mem_eraseIdx mem)
  | recvPfAck =>
    obtain ⟨_, acked, same⟩ := map_ok_iff.mp handled
    cases same
    exact writes.of_eq (recvPfAck_blocks acked).writeBuffer
  | issuePrefetch line =>
    obtain rfl : _ = after := congrArg Prod.fst (Except.ok.inj handled)
    exact writes.of_eq (issuePrefetch_blocks cache line).writeBuffer
  | squashPrefetch =>
    obtain ⟨_, squashed, same⟩ := map_ok_iff.mp handled
    cases same
    exact writes.of_eq (squashPrefetch_blocks squashed).writeBuffer
  | recvTimingSnoopReq pkt above =>
    obtain ⟨_, snooped, same⟩ := map_ok_iff.mp handled
    cases same
    exact writes.recvTimingSnoopReq rule above pkt snooped
  | setDownstreamPending =>
    cases handled
    exact writes

end Rule

end RasCache.Mem.Cache
