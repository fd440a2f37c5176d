import RasCache.Mem.Frame

/-!
# The outcomes of an access

`access` says once and for all what a request finds: everything the later
modules prove about requests starts from the outcomes listed here.
-/
namespace RasCache.Mem

open Outcomes

variable {R : Type}

namespace Cache

variable (rp : ReplacementPolicy R) (cfg : CacheParams)

/-- The request brings data of its own to write. -/
def writesData (pkt : Packet) : Bool := pkt.isWriteback || decide (pkt.cmd = .writeClean)

/-- The block can serve the request as it is. -/
def serves (pkt : Packet) (blk : CacheBlk) : Bool :=
  if pkt.needsWritable then blk.writable else blk.readable

/-- The outcomes of `accessBlk`, for the block at `place`. -/
inductive BlkAccess (cache : Cache R) (pkt : Packet) (place : Option Place) (tick : Nat) :
    Access R → Prop where
  /-- A clean writeback is dropped while the line is being fetched. -/
  | swallowed (clean : pkt.cmd = .writebackClean)
    (waits : (cache.findMshr pkt.rawLine).isSome = true) :
    BlkAccess cache pkt place tick ⟨true, place, cache, [], pkt⟩
  | writtenThrough (writes : writesData pkt = true) (absent : place = none) :
    BlkAccess cache pkt place tick ⟨false, none, cache, [], pkt⟩
  | unplaced (room : Cache R) (writebacks : List Packet) (writes : writesData pkt = true)
    (took : cache.blockForWrite rp cfg pkt place tick = .ok (none, room, writebacks)) :
    BlkAccess cache pkt place tick ⟨false, none, room, writebacks, pkt⟩
  | written (used : Place) (room : Cache R) (writebacks : List Packet)
    (writes : writesData pkt = true)
    (took : cache.blockForWrite rp cfg pkt place tick =
      .ok (some used, room, writebacks)) :
    BlkAccess cache pkt place tick
      ⟨!pkt.writeThrough, some used,
        room.setBlk (.tag used) (writeBits pkt (room.getBlk (.tag used))), writebacks, pkt⟩
  | cleanEvict (cmd : pkt.cmd = .cleanEvict) :
    BlkAccess cache pkt place tick ⟨place.isSome, place, cache, [], pkt⟩
  | satisfied (used : Place) (after : Cache R) (out : Packet) (here : place = some used)
    (reads : writesData pkt = false) (usable : serves pkt (cache.getBlk (.tag used)) = true)
    (request : cache.satisfyRequest rp cfg pkt (.tag used) false false =
      .ok (after, out)) :
    BlkAccess cache pkt place tick
      ⟨true, some used, after.maintainClusivity rp cfg out.fromCache (.tag used), [], out⟩
  | missed (reads : writesData pkt = false) (other : pkt.cmd ≠ .cleanEvict)
    (unusable : ∀ used, place = some used → serves pkt (cache.getBlk (.tag used)) = false) :
    BlkAccess cache pkt place tick
      ⟨place.isNone && pkt.isLLSC && pkt.isWrite, place, cache, [], pkt⟩

variable {cache after : Cache R} {pkt req : Packet} {sent : Sent}
  {place : Option Place} {found : Access R} {tick : Nat}

theorem accessBlk_cases (ret : cache.accessBlk rp cfg pkt place tick = .ok found) :
    BlkAccess rp cfg cache pkt place tick found := by
  unfold accessBlk at ret
  dsimp only at ret
  split at ret
  -- the branches are those of the source: writes first, then clean evictions, then reads
  next writes =>
    split at ret
    · cases ret
    · split at ret
      next dropped =>
        cases ret
        rw [Bool.and_eq_true, decide_eq_true_eq] at dropped
        exact .swallowed dropped.1 dropped.2
      next =>
        split at ret
        next through =>
          cases ret
          rw [Bool.and_eq_true] at through
          exact .writtenThrough writes (by simpa using through.2)
        next =>
          obtain ⟨⟨used, room, writebacks⟩, took, ret⟩ := bind_ok_iff.mp ret
          cases used with
          | none =>
            cases ret
            exact .unplaced room writebacks writes took
          | some used =>
            cases ret
            exact .written used room writebacks writes took
  next reads =>
    have reads : writesData pkt = false := by simpa [writesData] using reads
    split at ret
    next evict =>
      cases ret
      exact .cleanEvict evict
    next other =>
      split at ret
      next used usable =>
        obtain ⟨here, usable⟩ := Option.filter_eq_some_iff.mp usable
        obtain ⟨⟨after, out⟩, request, ret⟩ := bind_ok_iff.mp ret
        cases ret
        exact .satisfied used after out here reads usable request
      next unusable =>
        cases ret
        refine .missed reads other fun used here => ?_
        rw [here, Option.filter_eq_none_iff] at unusable
        exact Bool.eq_false_iff.mpr (unusable used rfl)

/-- The cache after its tags have been looked up for the packet. -/
def lookedUp (cache : Cache R) (pkt : Packet) (tick : Nat) : Cache R :=
  { cache with
    tags := (cache.tags.accessBlock rp (pkt.line cfg.blkSize) pkt.mayNotFill tick).2 }

theorem accessBlock_spec (tags : Tags R) (key : LineKey) (noFill : Bool) (tick : Nat) :
    (tags.accessBlock rp key noFill tick).1 = tags.findBlock rp key ∧
      (tags.accessBlock rp key noFill tick).2.blk = tags.blk := by
  unfold Tags.accessBlock
  split
  next absent => exact ⟨absent.symm, rfl⟩
  next found =>
    refine ⟨found.symm, ?_⟩
    split <;> rfl

theorem lookedUp_blk (cache : Cache R) (pkt : Packet) (tick : Nat) :
    (cache.lookedUp rp cfg pkt tick).tags.blk = cache.tags.blk :=
  (accessBlock_spec rp cache.tags _ _ tick).2

/-- The outcomes of `access`. -/
inductive AccessCase (cache : Cache R) (pkt : Packet) (tick : Nat) : Access R → Prop where
  | flushed (place : Place) (uncacheable : pkt.req.flags.uncacheable = true)
    (present : cache.tags.findBlock rp (pkt.line cfg.blkSize) = some place) :
    AccessCase cache pkt tick
      ⟨false, none, cache.invalidateBlock rp (.tag place),
        [evictionPacket cfg (cache.tags.blk place)], pkt⟩
  | bypassed (uncacheable : pkt.req.flags.uncacheable = true)
    (absent : cache.tags.findBlock rp (pkt.line cfg.blkSize) = none) :
    AccessCase cache pkt tick ⟨false, none, cache, [], pkt⟩
  | maintenance (cacheable : pkt.req.flags.uncacheable = false)
    (asked : pkt.req.isCacheMaintenance = true) :
    AccessCase cache pkt tick
      ⟨false, cache.tags.findBlock rp (pkt.line cfg.blkSize),
        cache.lookedUp rp cfg pkt tick, [], pkt⟩
  | merged (wb : Packet) (cacheable : pkt.req.flags.uncacheable = false)
    (clean : pkt.isCleanEviction = true) (eviction : pkt.isEviction = true)
    (waits : cache.findWrite cfg pkt.rawLine = some wb) :
    AccessCase cache pkt tick
      ⟨true, cache.tags.findBlock rp (pkt.line cfg.blkSize),
        { cache.lookedUp rp cfg pkt tick with
          writeBuffer := cache.writeBuffer.map fun p =>
            if p = wb then { p with blockCached := false } else p }, [], pkt⟩
  | accessed (start : Cache R) (found : Access R)
    (cacheable : pkt.req.flags.uncacheable = false)
    (from_ : start = if pkt.isEviction then (cache.lookedUp rp cfg pkt tick).dropWrite
      cfg pkt else cache.lookedUp rp cfg pkt tick)
    (unmerged : pkt.isEviction = true → pkt.isCleanEviction = true →
      cache.findWrite cfg pkt.rawLine = none)
    (outcome : BlkAccess rp cfg start pkt
      (cache.tags.findBlock rp (pkt.line cfg.blkSize)) tick found) :
    AccessCase cache pkt tick found

variable {rp cfg}

theorem access_cases (ret : cache.access rp cfg pkt tick = .ok found) :
    AccessCase rp cfg cache pkt tick found := by
  unfold access at ret
  dsimp only at ret
  split at ret
  · cases ret
  · split at ret
    next uncacheable =>
      split at ret
      next place present =>
        cases ret
        exact .flushed place uncacheable present
      next absent =>
        cases ret
        exact .bypassed uncacheable absent
    next cacheable =>
      have cacheable : pkt.req.flags.uncacheable = false := by simpa using cacheable
      rw [(accessBlock_spec rp cache.tags _ _ tick).1] at ret
      split at ret
      · cases ret
      · split at ret
        next asked =>
          cases ret
          exact .maintenance cacheable asked
        next =>
          split at ret
          next eviction =>
            -- an eviction may be merged with the packet of its line that waits
            obtain ⟨_, merge, ret⟩ := bind_ok_iff.mp ret
            unfold mergeEviction at merge
            split at merge
            next free =>
              cases merge
              exact .accessed _ found cacheable (if_pos eviction).symm (fun _ _ => free)
                (accessBlk_cases rp cfg ret)
            next wb waits =>
              split at merge
              · cases merge
              · split at merge
                next clean =>
                  cases merge
                  cases ret
                  exact .merged wb cacheable clean eviction waits
                next dirty =>
                  cases merge
                  exact .accessed _ found cacheable (if_pos eviction).symm
                    (fun _ clean => absurd clean dirty)
                    (accessBlk_cases rp cfg ret)
          next plain =>
            exact .accessed _ found cacheable (if_neg plain).symm
              (fun eviction => absurd eviction plain)
              (accessBlk_cases rp cfg ret)

theorem dropWrite_tags (cache : Cache R) (pkt : Packet) :
    (cache.dropWrite cfg pkt).tags = cache.tags := by
  unfold dropWrite
  split <;> rfl

theorem dropWrite_queue (cache : Cache R) (pkt : Packet) :
    QueueKept cache (cache.dropWrite cfg pkt) := by
  unfold dropWrite
  split <;> exact ⟨rfl, rfl⟩

/-! ### Misses -/

/-- The block waits for the response and cannot be read meanwhile. -/
def unread (cache : Cache R) : Option Place → Cache R
  | some place => cache.setBlk (.tag place) { cache.getBlk (.tag place) with readable := false }
  | none => cache

/-- The packet that misses: a software prefetch is replaced by a new one. -/
def Opens (pkt req : Packet) : Prop :=
  req = pkt ∨ pkt.isSWPrefetch = true ∧ req = Packet.ofRequest pkt.req pkt.cmd pkt.addr pkt.size

variable (cfg) in
/-- The outcomes of `handleTimingReqMiss`. Nothing else looks at the write
allocator `wa`. -/
inductive Missed (cache : Cache R) (pkt : Packet) (place : Option Place) (wa : WriteAllocator) :
    Cache R → Sent → Prop where
  /-- The packet goes down through the write buffer. -/
  | pushed (direct : pkt.req.flags.uncacheable = true ∨ pkt.cmd = .writeClean ∨
      pkt.isEviction = true ∧ cache.findMshr (pkt.line cfg.blkSize) = none) :
    Missed cache pkt place wa
      { cache with writeAllocator := wa, writeBuffer := cache.writeBuffer ++ [pkt] } {}
  /-- A clean eviction meets the MSHR of its line. -/
  | ignored (evict : pkt.cmd = .cleanEvict) :
    Missed cache pkt place wa { cache with writeAllocator := wa } {}
  /-- A software prefetch for a line that is being fetched. -/
  | answered (soft : pkt.isSWPrefetch = true) :
    Missed cache pkt place wa { cache with writeAllocator := wa } { up := [pkt.makeResponse] }
  | fetched (uncacheable : pkt.req.flags.uncacheable = true) :
    Missed cache pkt place wa
      (({ cache with writeAllocator := wa } : Cache R).allocateMissBuffer cfg pkt false) {}
  | opened (req : Packet) (up : List Packet) (cacheable : pkt.req.flags.uncacheable = false)
    (free : cache.findMshr (pkt.line cfg.blkSize) = none) (opens : Opens pkt req)
    (answer : up = if pkt.isSWPrefetch then [pkt.makeResponse] else [])
    (stays : pkt.isEviction = false)
    (unblocked : ∀ used, place = some used →
      ((req.needsWritable && !(cache.getBlk (.tag used)).writable) ||
        req.req.isCacheMaintenance) = true) :
    Missed cache pkt place wa
      ((({ cache with writeAllocator := wa } : Cache R).unread place).allocateMissBuffer cfg req
        (!cfg.nofillEn)) { up }
  | joined (entry : MshrEntry) (mshr : Mshr) (acks : List Packet)
    (cacheable : pkt.req.flags.uncacheable = false)
    (hit : cache.findMshr (pkt.line cfg.blkSize) = some entry)
    (added : entry.mshr.allocateTarget pkt cache.order (cfg.allocOnFill pkt.cmd) = some mshr)
    (waits : pkt.isSWPrefetch = false ∧ pkt.cmd ≠ .cleanEvict ∧ pkt.cmd ≠ .writeClean) :
    Missed cache pkt place wa
      { ({ cache with writeAllocator := wa } : Cache R).setMshr entry.id mshr with
        order := cache.order + 1 } { pfAck := acks }

theorem coalesce_cases {entry : MshrEntry} (place : Option Place) {wa : WriteAllocator}
    (cacheable : pkt.req.flags.uncacheable = false) (hard : pkt.isSWPrefetch = false)
    (hit : cache.findMshr (pkt.line cfg.blkSize) = some entry)
    (ret : ({ cache with writeAllocator := wa } : Cache R).coalesce cfg entry pkt =
      .ok (after, sent)) : Missed cfg cache pkt place wa after sent := by
  unfold coalesce at ret
  split at ret
  · cases ret
  · split at ret
    -- a clean eviction that meets an MSHR is dropped, a WriteClean passes it, the rest waits
    next evict =>
      cases ret
      exact .ignored evict
    next other =>
      split at ret
      next clean =>
        cases ret
        exact .pushed (.inr (.inl clean))
      next unclean =>
        obtain ⟨mshr, added, ret⟩ := bind_ok_iff.mp ret
        cases ret
        exact .joined entry mshr _ cacheable hit (orFail_ok_iff.mp added) ⟨hard, other, unclean⟩

theorem openMiss_up (cache after : Cache R) (pkt : Packet) (place : Option Place) (sent : Sent)
    (ret : cache.openMiss cfg pkt place = .ok (after, sent)) : sent.up = [] := by
  unfold openMiss at ret
  dsimp only at ret
  split at ret
  · cases ret
    rfl
  · split at ret
    · cases ret
    · split at ret <;> cases ret
      rfl

theorem Opens.cmd (opens : Opens pkt req) : req.cmd = pkt.cmd := by
  rcases opens with rfl | ⟨_, rfl⟩ <;> rfl

theorem Opens.isEviction (opens : Opens pkt req) : req.isEviction = pkt.isEviction := by
  unfold Packet.isEviction
  rw [opens.cmd]

/-- A packet that goes to the write buffer is the request itself, and no prefetch. -/
theorem Opens.pushes (opens : Opens pkt req)
    (direct : (req.isEviction || decide (req.cmd = .writeClean)) = true) :
    req = pkt ∧ pkt.isSWPrefetch = false ∧ (pkt.cmd = .writeClean ∨ pkt.isEviction = true) := by
  rw [opens.isEviction, opens.cmd] at direct
  have hard : pkt.isSWPrefetch = false := by
    unfold Packet.isEviction Packet.isSWPrefetch at *
    cases cmd : pkt.cmd <;> simp [cmd, MemCmd.has, MemCmd.attributes] at direct ⊢
  refine ⟨?_, hard, ?_⟩
  · rcases opens with rfl | ⟨soft, _⟩
    · rfl
    · rw [hard] at soft
      cases soft
  · rw [Bool.or_eq_true, decide_eq_true_eq] at direct
    exact direct.symm

theorem openMiss_cases (cache after : Cache R) (pkt req : Packet) (place : Option Place)
    (wa : WriteAllocator) (sent : Sent) (up : List Packet)
    (cacheable : pkt.req.flags.uncacheable = false)
    (free : cache.findMshr (pkt.line cfg.blkSize) = none) (opens : Opens pkt req)
    (answer : up = if pkt.isSWPrefetch then [pkt.makeResponse] else [])
    (ret : ({ cache with writeAllocator := wa } : Cache R).openMiss cfg req place =
      .ok (after, sent)) : Missed cfg cache pkt place wa after { sent with up } := by
  unfold openMiss at ret
  dsimp only at ret
  split at ret
  next direct =>
    cases ret
    obtain ⟨rfl, hard, why⟩ := opens.pushes direct
    rw [hard, if_neg Bool.false_ne_true] at answer
    subst answer
    refine .pushed (.inr ?_)
    rcases why with clean | evicts
    · exact .inl clean
    · exact .inr ⟨evicts, free⟩
  next plain =>
    split at ret
    · cases ret
    next unblocked =>
      split at ret
      · cases ret
      · cases ret
        have stays : pkt.isEviction = false := by
          rw [Bool.or_eq_true, not_or, opens.isEviction] at plain
          simpa using plain.1
        have writable (used : Place) (here : place = some used) :
            ((req.needsWritable && !(cache.getBlk (.tag used)).writable) ||
              req.req.isCacheMaintenance) = true := by
          simp only [here, Option.any_some, Bool.not_eq_true', Bool.not_eq_false] at unblocked
          exact unblocked
        have opened : Missed cfg cache pkt place wa _ _ :=
          .opened req up cacheable free opens answer stays writable
        cases place <;> exact opened

/-- A miss leaves the rest of the cache alone. -/
theorem handleTimingReqMiss_cases
    (ret : cache.handleTimingReqMiss cfg pkt place = .ok (after, sent)) :
    ∃ wa, Missed cfg cache pkt place wa after sent := by
  unfold handleTimingReqMiss at ret
  split at ret
  next uncacheable =>
    refine ⟨cache.writeAllocator, ?_⟩
    split at ret
    · cases ret
      exact .pushed (.inl uncacheable)
    · split at ret <;> cases ret
      exact .fetched uncacheable
  next cacheable =>
    have cacheable : pkt.req.flags.uncacheable = false := by simpa using cacheable
    dsimp only at ret
    -- whatever the write allocator counts, nothing else of the cache moves
    generalize counted : (if (cfg.hasWriteAllocator && pkt.isWrite) = true then
      ({ cache with
        writeAllocator := cache.writeAllocator.updateMode cfg pkt.addr pkt.size } : Cache R)
      else cache) = next at ret
    obtain ⟨wa, rfl⟩ : ∃ wa, next = { cache with writeAllocator := wa } := by
      rw [← counted]
      split
      · exact ⟨_, rfl⟩
      · exact ⟨cache.writeAllocator, rfl⟩
    refine ⟨wa, ?_⟩
    split at ret
    next soft =>
      split at ret
      · cases ret
        exact .answered soft
      next free =>
        obtain ⟨⟨_, missed⟩, miss, ret⟩ := bind_ok_iff.mp ret
        cases ret
        exact openMiss_cases cache _ pkt _ place wa missed _ cacheable free
          (.inr ⟨soft, rfl⟩) (if_pos soft).symm miss
    next hard =>
      split at ret
      next hit =>
        exact coalesce_cases place cacheable (by simpa using hard) hit ret
      next free =>
        have silent : sent.up = [] := openMiss_up _ after pkt place sent ret
        have missed := openMiss_cases cache after pkt pkt place wa sent [] cacheable free
          (.inl rfl) (if_neg hard).symm ret
        rw [← silent] at missed
        exact missed

/-! ### Sending a miss -/

variable (rp cfg) in
/-- What `sendMSHRQueuePacket` does for the MSHR `entry`. Only a clean operation
touches the block: the dirty data leave through the write buffer. -/
inductive SendCase (above : Packet → Bool) (cache : Cache R) (id : Nat)
    (pendingModifiedResp : Bool) (entry : MshrEntry) (pkt : Packet) (isForward : Bool)
    (wa : WriteAllocator) : Cache R → Prop where
  | plain :
    SendCase above cache id pendingModifiedResp entry pkt isForward wa
      { cache.setMshr id (Mshr.markInService { entry.mshr with isForward } pendingModifiedResp) with
        writeAllocator := wa }
  | cleaned (place : Place) (asked : pkt.isClean = true)
    (present : cache.tags.findBlock rp entry.mshr.key = some place) :
    SendCase above cache id pendingModifiedResp entry pkt isForward wa
      ((({ cache.setMshr id
          (Mshr.markInService { entry.mshr with isForward } pendingModifiedResp) with
          writeAllocator := wa } : Cache R).setBlk (.tag place)
        { cache.tags.blk place with dirty := false, writable := false }).doWritebacks above
          [writecleanPacket cfg (cache.tags.blk place) pkt])

theorem sendMSHRQueuePacket_cases {above : Packet → Bool} {id : Nat} {pendingModifiedResp : Bool}
    (ret : cache.sendMSHRQueuePacket rp cfg above id pendingModifiedResp = .ok (after, sent)) :
    ∃ entry pkt isForward wa, cache.findId id = some entry ∧ entry.mshr.inService = false ∧
      cache.missPacket rp cfg entry.mshr = some (pkt, isForward) ∧ sent = { down := [pkt] } ∧
      SendCase rp cfg above cache id pendingModifiedResp entry pkt isForward wa after := by
  obtain ⟨entry, found, ret⟩ := bind_ok_iff.mp ret
  dsimp only at ret
  split at ret
  · cases ret
  next idle =>
    obtain ⟨⟨pkt, isForward⟩, made, ret⟩ := bind_ok_iff.mp ret
    rw [orFail_ok_iff] at found made
    -- the allocator is left open: no result here depends on it
    generalize (if (cfg.hasWriteAllocator && decide (cache.writeAllocator.mode ≠ .allocate) &&
      (entry.mshr.targets.list.head?.any fun t => t.pkt.isWrite) &&
        !entry.mshr.targets.flags.isWholeLineWrite) = true then ({} : WriteAllocator)
      else cache.writeAllocator) = wa at ret
    cases ret
    refine ⟨entry, pkt, isForward, wa, found, by simpa using idle, made, rfl, ?_⟩
    dsimp only
    split
    next place dirty =>
      obtain ⟨present, dirty⟩ := Option.filter_eq_some_iff.mp dirty
      rw [Bool.and_eq_true] at dirty
      exact .cleaned place dirty.1 present
    next => exact .plain

end Cache

end RasCache.Mem
