import RasCache.Mem.FillPermission
import RasCache.Mem.Tags

/-!
# One cache

Model of `BaseCache` and `Cache` (`mem/cache/base.cc`, `mem/cache/cache.cc`) in
timing mode. The bytes of a line never meet, so one byte of each line, at an
offset that is not fixed, stands for the data. Time enters only as the tick
handed to the replacement policy; which queue entry is sent next, and when a
response arrives, is left to the environment. A failed assertion or panic of the
source is an `Except.error`.
-/
namespace RasCache.Mem

/-- The ways the modelled code can stop the simulation. -/
inductive Failure where
  /-- The panic of `handleFill`: the temporary block is needed, but no-fill is
  not enabled. -/
  | tempBlockWithoutNofill
  /-- The panic of `recvTimingResp` on NO_FILL_LOWER at the last level. -/
  | noFillLowerAtLastLevel
  /-- The panic of `handleTimingReqMiss` on a no-fill packet whose MSHR may fill. -/
  | noFillOpensFill
  /-- The panic of `handleTimingReqMiss` on a no-fill packet that is no demand
  fetch. -/
  | noFillWithoutDemand
  | assertion
deriving Repr, DecidableEq

structure CacheParams where
  blkSize : Nat
  cacheLevel : Nat
  nofillEn : Bool
  pfAckEn : Bool
  mostlyExcl : Bool := false
  writebackClean : Bool := false
  isReadOnly : Bool := false
  hasWriteAllocator : Bool := false
  coalesceLimit : Nat := 0
  noAllocateLimit : Nat := 0
deriving Repr, DecidableEq

/-- A cache that protects against speculative fills. -/
def CacheParams.guarded (cacheLevel : Nat) : CacheParams :=
  { blkSize := 64, cacheLevel, nofillEn := true, pfAckEn := true }

def CacheParams.allocOnFill (cfg : CacheParams) (cmd : MemCmd) : Bool :=
  !cfg.mostlyExcl || cmd == .writeLineReq || cmd == .readReq || cmd == .writeReq ||
    cmd.has .isSWPrefetch || cmd.has .isHWPrefetch || cmd.has .isLlsc

/-! ### The write allocator -/

inductive WriteMode where
  | allocate
  | coalesce
  | noAllocate
deriving Repr, DecidableEq

/-- `WriteAllocator`, without the counters that only delay an MSHR. -/
structure WriteAllocator where
  mode : WriteMode := .allocate
  nextAddr : Addr := 0
  byteCount : Nat := 0
deriving Repr, DecidableEq

namespace WriteAllocator

def allocate (wa : WriteAllocator) : Bool := decide (wa.mode ≠ .noAllocate)

def updateMode (cfg : CacheParams) (wa : WriteAllocator) (writeAddr writeSize : Nat) :
    WriteAllocator :=
  if wa.nextAddr = writeAddr then
    let byteCount := if wa.mode = .noAllocate then wa.byteCount else wa.byteCount + writeSize
    let mode :=
      match wa.mode with
      | .allocate => if cfg.coalesceLimit < byteCount then .coalesce else .allocate
      | .coalesce => if cfg.noAllocateLimit < byteCount then .noAllocate else .coalesce
      | .noAllocate => .noAllocate
    { mode, byteCount, nextAddr := writeAddr + writeSize }
  else { mode := .allocate, byteCount := writeSize, nextAddr := writeAddr + writeSize }

end WriteAllocator

/-! ### State -/

/-- An allocated MSHR. The order of its allocation stands for the pointer. -/
structure MshrEntry where
  id : Nat
  mshr : Mshr
deriving Repr, DecidableEq

structure Cache (R : Type) where
  tags : Tags R
  tempBlock : CacheBlk := {}
  mshrs : List MshrEntry := []
  writeBuffer : List Packet := []
  writeAllocator : WriteAllocator := {}
  order : Nat := 0

/-- `CacheBlk *`: a block of the tag array or the temporary block. -/
inductive BlkRef where
  | tag (place : Place)
  | temp
deriving Repr, DecidableEq

def Mshr.key (mshr : Mshr) : LineKey := ⟨mshr.blkAddr, mshr.isSecure, mshr.domainID⟩

/-- The line of a packet at its block address. -/
def Packet.line (blkSize : Nat) (pkt : Packet) : LineKey :=
  ⟨Packet.blkAlign pkt.addr blkSize, pkt.isSecure, pkt.domainID⟩

/-- The line of a packet at the address it carries, as the queue lookups that
pass `getAddr()` compare it. -/
def Packet.rawLine (pkt : Packet) : LineKey := ⟨pkt.addr, pkt.isSecure, pkt.domainID⟩

namespace Cache

variable {R : Type}

def getBlk (cache : Cache R) : BlkRef → CacheBlk
  | .tag place => cache.tags.blk place
  | .temp => cache.tempBlock

def setBlk (cache : Cache R) (ref : BlkRef) (blk : CacheBlk) : Cache R :=
  match ref with
  | .tag place => { cache with tags := cache.tags.setBlk place blk }
  | .temp => { cache with tempBlock := blk }

/-- `mshrQueue.findMatch`: uncacheable entries never match. -/
def findMshr (cache : Cache R) (key : LineKey) : Option MshrEntry :=
  cache.mshrs.find? fun e => !e.mshr.uncacheable && decide (e.mshr.key = key)

def setMshr (cache : Cache R) (id : Nat) (mshr : Mshr) : Cache R :=
  { cache with mshrs := cache.mshrs.map fun e => if e.id = id then { e with mshr } else e }

def removeMshr (cache : Cache R) (id : Nat) : Cache R :=
  { cache with mshrs := cache.mshrs.filter fun e => decide (e.id ≠ id) }

/-- `writeBuffer.findMatch`. -/
def findWrite (cfg : CacheParams) (cache : Cache R) (key : LineKey) : Option Packet :=
  cache.writeBuffer.find? fun pkt =>
    !pkt.req.flags.uncacheable && decide (pkt.line cfg.blkSize = key)

/-! ### Evictions and fills -/

/-- The packet of `writebackBlk` or `cleanEvictBlk`. A writeback of a block that
is not writable tells the receiver of sharers. -/
def evictionPacket (cfg : CacheParams) (blk : CacheBlk) : Packet :=
  let writesBack := blk.dirty || cfg.writebackClean
  { req := { flags := { secure := blk.key.isSecure }, domainID := blk.key.domainID }
    cmd :=
      if blk.dirty then .writebackDirty
      else if cfg.writebackClean then .writebackClean
      else .cleanEvict
    addr := blk.key.blkAddr
    size := cfg.blkSize
    hasSharers := writesBack && !blk.writable
    data := if writesBack then some blk.data else none }

/-- `invalidateBlock`. -/
def invalidateBlock (rp : ReplacementPolicy R) (cache : Cache R) : BlkRef → Cache R
  | .tag place => { cache with tags := cache.tags.invalidate rp place }
  | .temp => { cache with tempBlock := {} }

def isCleaning (mshr : Mshr) : Bool := mshr.targets.list.head?.any fun t => t.pkt.isClean

/-- `allocateBlock`, with `handleEvictions`. The policy is asked for a victim
also when the allocation then fails. -/
def allocateBlock (rp : ReplacementPolicy R) (cfg : CacheParams) (cache : Cache R)
    (key : LineKey) (tick : Nat) : Except Failure (Option Place × Cache R × List Packet) :=
  let (place, tags) := cache.tags.findVictim rp key.blkAddr
  let cache := { cache with tags }
  let victim := tags.blk place
  let insert (cache : Cache R) : Cache R :=
    { cache with tags := cache.tags.insertBlock rp key place tick }
  if victim.valid then
    match cache.findMshr victim.key with
    | some e =>
      if (!victim.writable && e.mshr.needsWritable) || isCleaning e.mshr then
        .ok (none, cache, [])
      else .error .assertion
    | none =>
      .ok (some place, insert (cache.invalidateBlock rp (.tag place)),
        [evictionPacket cfg victim])
  else .ok (some place, insert cache, [])

/-- The state bits `handleFill` sets on the block it fills, and the data of a
read response. -/
def fillBits (pkt : Packet) (blk : CacheBlk) : CacheBlk :=
  { blk with
    readable := true
    writable := blk.writable || !pkt.hasSharers
    dirty := blk.dirty || (!pkt.hasSharers && pkt.cacheResponding)
    data := if pkt.isRead then pkt.data.getD blk.data else blk.data }

/-- What a fill leaves: the block used, the cache, the evictions, and the
response, marked NO_FILL_LOWER when the temporary block was used. -/
structure Filled (R : Type) where
  ref : BlkRef
  cache : Cache R
  writebacks : List Packet
  pkt : Packet

/-- The assertions of `handleFill` on the response fail. -/
def fillMisfit (cfg : CacheParams) (cache : Cache R) (pkt : Packet) : Bool :=
  let key := pkt.line cfg.blkSize
  decide (pkt.addr ≠ key.blkAddr) || (cache.findWrite cfg key).isSome ||
    (pkt.cmd == .invalidateResp && pkt.hasSharers)

/-- A response that brings nothing to put into a new block. -/
def fillDataless (pkt : Packet) : Bool := !pkt.hasData && decide (pkt.cmd ≠ .invalidateResp)

def handleFill (rp : ReplacementPolicy R) (cfg : CacheParams) (cache : Cache R)
    (pkt : Packet) (blk : Option Place) (allocate : Bool) (tick : Nat) :
    Except Failure (Filled R) := do
  let key := pkt.line cfg.blkSize
  if cache.fillMisfit cfg pkt then .error .assertion
  else
    let fill (ref : BlkRef) (cache : Cache R) (writebacks : List Packet) (pkt : Packet) :
        Filled R :=
      ⟨ref, cache.setBlk ref (fillBits pkt (cache.getBlk ref)), writebacks, pkt⟩
    match blk with
    | some place => .ok (fill (.tag place) cache [] pkt)
    | none =>
      if fillDataless pkt then .error .assertion
      else
        let (place, cache, writebacks) ←
          if allocate then cache.allocateBlock rp cfg key tick
          else .ok (none, cache, [])
        match place with
        | some place => .ok (fill (.tag place) cache writebacks pkt)
        | none =>
          if !cfg.nofillEn then .error .tempBlockWithoutNofill
          else
            .ok (fill .temp { cache with tempBlock := .insert key } writebacks
              { pkt with noFillLower := true })

/-! ### Satisfying a request from a block -/

/-- `BaseCache::satisfyRequest`. A swap is taken to write the block. -/
def satisfyBase (rp : ReplacementPolicy R) (cache : Cache R) (pkt : Packet) (ref : BlkRef) :
    Except Failure (Cache R × Packet) :=
  let blk := cache.getBlk ref
  let written := cache.setBlk ref { blk with dirty := true, data := pkt.data.getD blk.data }
  if pkt.cmd = .swapReq then .ok (written, { pkt with data := some blk.data })
  else if pkt.isWrite then if blk.writable then .ok (written, pkt) else .error .assertion
  else if pkt.isRead then .ok (cache, { pkt with data := some blk.data })
  else if pkt.isUpgrade then
    if pkt.hasSharers then .error .assertion
    else if blk.dirty then
      .ok (cache.setBlk ref { blk with dirty := false }, { pkt with cacheResponding := true })
    else .ok (cache, pkt)
  else if pkt.isClean then .ok (cache.setBlk ref { blk with dirty := false }, pkt)
  else if pkt.isInvalidate then .ok (cache.invalidateBlock rp ref, pkt)
  else .error .assertion

/-- The part of `Cache::satisfyRequest` for a read by a cache above: whether it
gets the line writable, and who keeps it dirty. -/
def grantRead (cfg : CacheParams) (cache : Cache R) (pkt : Packet) (ref : BlkRef)
    (deferredResponse pendingDowngrade : Bool) : Except Failure (Cache R × Packet) :=
  let blk := cache.getBlk ref
  let clean := cache.setBlk ref { blk with dirty := false }
  if pkt.needsWritable then
    if pkt.hasSharers then .error .assertion
    else if blk.dirty then .ok (clean, { pkt with cacheResponding := true })
    else .ok (cache, pkt)
  else if blk.writable && !pendingDowngrade && !pkt.hasSharers && pkt.cmd ≠ .readCleanReq then
    if blk.dirty then
      if deferredResponse then .ok (cache, { pkt with hasSharers := true })
      else
        .ok (if 1 < cfg.cacheLevel then clean else cache, { pkt with cacheResponding := true })
    else .ok (cache, pkt)
  else .ok (cache, { pkt with hasSharers := true })

/-- `Cache::satisfyRequest`. -/
def satisfyRequest (rp : ReplacementPolicy R) (cfg : CacheParams) (cache : Cache R)
    (pkt : Packet) (ref : BlkRef) (deferredResponse pendingDowngrade : Bool) :
    Except Failure (Cache R × Packet) := do
  if !pkt.isRequest || !(cache.getBlk ref).valid ||
      cfg.blkSize < pkt.getOffset cfg.blkSize + pkt.size then
    .error .assertion
  else
    let (cache, pkt) ← cache.satisfyBase rp pkt ref
    if pkt.isRead && pkt.fromCache then
      if pkt.size ≠ cfg.blkSize then .error .assertion
      else cache.grantRead cfg pkt ref deferredResponse pendingDowngrade
    else .ok (cache, pkt)

/-- `maintainClusivity`. -/
def maintainClusivity (rp : ReplacementPolicy R) (cfg : CacheParams) (cache : Cache R)
    (fromCache : Bool) (ref : BlkRef) : Cache R :=
  let blk := cache.getBlk ref
  if fromCache && blk.valid && !blk.dirty && cfg.mostlyExcl then
    cache.invalidateBlock rp ref
  else cache

/-! ### Servicing the targets of an MSHR -/

/-- `doWritebacks`: `cachedAbove` is the answer of `isCachedAbove`. -/
def doWritebacks (cache : Cache R) (cachedAbove : Packet → Bool) (writebacks : List Packet) :
    Cache R :=
  { cache with
    writeBuffer := cache.writeBuffer ++ writebacks.filterMap fun pkt =>
      if cachedAbove pkt then
        if pkt.isCleanEviction then none else some { pkt with blockCached := true }
      else some pkt }

/-- The packet of `writecleanBlk`, for the maintenance operation `pkt`. -/
def writecleanPacket (cfg : CacheParams) (blk : CacheBlk) (pkt : Packet) : Packet :=
  { evictionPacket cfg blk with
    cmd := .writeClean
    hasSharers := !blk.writable
    writeThrough := pkt.req.flags.dest
    data := some blk.data }

/-- The effect of `Cache::handleSnoop` on the block, for a snoop that was saved
as a target. Its answer leaves on the memory side and is not followed here. -/
def replaySnoop (rp : ReplacementPolicy R) (cfg : CacheParams)
    (cachedAbove : Packet → Bool) (cache : Cache R) (pkt : Packet) (ref : BlkRef) : Cache R :=
  let blk := cache.getBlk ref
  if !blk.valid then cache
  else if pkt.isClean then
    let cache :=
      if blk.dirty then
        (cache.setBlk ref { blk with dirty := false, writable := false }).doWritebacks cachedAbove
          [writecleanPacket cfg blk pkt]
      else cache
    if pkt.isInvalidate then cache.invalidateBlock rp ref else cache
  else if pkt.mustCheckAbove then cache
  else
    let cache :=
      if pkt.isRead && !pkt.isInvalidate && !pkt.req.flags.uncacheable then
        cache.setBlk ref { blk with writable := false }
      else cache
    if pkt.isInvalidate then cache.invalidateBlock rp ref else cache

/-- The response to a target: the answer to a read that must be dropped right
away says so. -/
def respond (pkt : Packet) (invalidate : Bool) : Packet :=
  let resp := pkt.makeResponse
  if resp.cmd = .readResp && invalidate then { resp with cmd := .readRespWithInvalidate } else resp

/-- A target from the CPU side that is not a prefetch. `ref` is the block
`recvTimingResp` works on. -/
def serviceRequest (rp : ReplacementPolicy R) (cfg : CacheParams) (mshr : Mshr)
    (resp : Packet) (cache : Cache R) (ref : Option BlkRef) (pkt : Packet) :
    Except Failure (Cache R × Packet) := do
  let isInvalidate := resp.isInvalidate && !mshr.wasWholeLineWrite
  let finish (pkt : Packet) : Packet := respond pkt (isInvalidate || mshr.postInvalidate)
  match ref.filter fun ref => (cache.getBlk ref).valid && (!mshr.isForward || !resp.hasData) with
  | some ref =>
    let (cache, pkt) ← cache.satisfyRequest rp cfg pkt ref true mshr.postDowngrade
    if pkt.req.flags.uncacheable then .error .assertion
    else .ok (cache, finish { pkt with noFillLower := pkt.noFillLower || resp.noFillLower })
  | none =>
    if resp.cmd = .upgradeFailResp then
      if pkt.cmd = .storeCondReq || pkt.cmd = .storeCondFailReq || pkt.cmd = .scUpgradeFailReq then
        .ok (cache, finish pkt)
      else .error .assertion
    else if !resp.isRead && pkt.hasRespData then .error .assertion
    else
      let cache :=
        match ref.filter fun ref => isInvalidate && (cache.getBlk ref).valid with
        | some ref => cache.invalidateBlock rp ref
        | none => cache
      let data := if resp.isRead then resp.data else pkt.data
      .ok (cache, finish { pkt.copyResponderFlags resp with data })

/-- One target. Prefetches get no answer. -/
def serviceTarget (rp : ReplacementPolicy R) (cfg : CacheParams)
    (cachedAbove : Packet → Bool) (mshr : Mshr) (resp : Packet) (ref : Option BlkRef)
    (cache : Cache R) (t : Target) : Except Failure (Cache R × List Packet) :=
  match t.source with
  | .fromPrefetcher =>
    match ref with
    | some ref => .ok (cache.setBlk ref { cache.getBlk ref with prefetched := true }, [])
    | none => .ok (cache, [])
  | .fromSnoop =>
    match ref with
    | some ref => .ok (cache.replaySnoop rp cfg cachedAbove t.pkt ref, [])
    | none => .ok (cache, [])
  | .fromCPU =>
    if t.pkt.cmd = .hardPFReq then .ok (cache, [])
    else if t.pkt.isSWPrefetch then
      if t.pkt.needsWritable then
        match ref with
        | some ref => .ok (cache.setBlk ref { cache.getBlk ref with dirty := true }, [])
        | none => .error .assertion
      else .ok (cache, [])
    else if t.pkt.cmd = .writeLineReq && !(ref.any fun ref => (cache.getBlk ref).writable) then
      .error .assertion
    else
      (cache.serviceRequest rp cfg mshr resp ref t.pkt).map fun (cache, pkt) =>
        (cache, [pkt])

/-- The loop of `serviceMSHRTargets`, with the responses it sends up. -/
def serviceTargets (rp : ReplacementPolicy R) (cfg : CacheParams)
    (cachedAbove : Packet → Bool) (mshr : Mshr) (resp : Packet) (ref : Option BlkRef) :
    Cache R → List Target → Except Failure (Cache R × List Packet)
  | cache, [] => .ok (cache, [])
  | cache, t :: rest => do
    let (cache, sent) ← cache.serviceTarget rp cfg cachedAbove mshr resp ref t
    let (cache, more) ← serviceTargets rp cfg cachedAbove mshr resp ref cache rest
    .ok (cache, sent ++ more)

/-- What happens to the block once the targets are serviced. -/
def settleBlock (rp : ReplacementPolicy R) (cfg : CacheParams) (mshr : Mshr)
    (resp : Packet) (hasFromCache : Bool) (cache : Cache R) (ref : BlkRef) : Cache R :=
  let cache := cache.maintainClusivity rp cfg hasFromCache ref
  let blk := cache.getBlk ref
  if !blk.valid then cache
  else if (resp.isInvalidate && !mshr.wasWholeLineWrite) || mshr.postInvalidate then
    cache.invalidateBlock rp ref
  else if mshr.postDowngrade then cache.setBlk ref { blk with writable := false }
  else cache

/-- `serviceMSHRTargets`, up to the MSHR itself: the targets to service have been
extracted. -/
def serviceMSHRTargets (rp : ReplacementPolicy R) (cfg : CacheParams)
    (cachedAbove : Packet → Bool) (mshr : Mshr) (resp : Packet) (ref : Option BlkRef)
    (ready : TargetList) (cache : Cache R) : Except Failure (Cache R × List Packet) := do
  let (cache, sent) ←
    cache.serviceTargets rp cfg cachedAbove mshr resp ref ready.list
  match ref with
  | some ref =>
    .ok (cache.settleBlock rp cfg mshr resp ready.flags.hasFromCache ref, sent)
  | none => .ok (cache, sent)

/-! ### Responses -/

def isFill (mshr : Mshr) (pkt : Packet) : Bool :=
  !mshr.isForward && (pkt.isRead || decide (pkt.cmd = .upgradeResp) || mshr.wasWholeLineWrite)

/-- `allow_fill`. -/
def allowFill (mshr : Mshr) (pkt : Packet) : Bool :=
  mshr.allocOnFill && !mshr.mayNotFill && !pkt.noFillLower

/-- The decision to allocate: the write allocator has the say for a whole-line
write. -/
def allocates (cfg : CacheParams) (cache : Cache R) (mshr : Mshr) (pkt : Packet) : Bool :=
  if cfg.hasWriteAllocator && mshr.wasWholeLineWrite then cache.writeAllocator.allocate
  else allowFill mshr pkt

/-- The fill part of `recvTimingResp`. -/
def fillStage (rp : ReplacementPolicy R) (cfg : CacheParams) (cache : Cache R)
    (mshr : Mshr) (pkt : Packet) (tick : Nat) :
    Except Failure (Option BlkRef × Cache R × List Packet × Packet) := do
  let place := cache.tags.findBlock rp (pkt.line cfg.blkSize)
  if isFill mshr pkt then
    if cfg.cacheLevel = 2 && pkt.noFillLower then .error .noFillLowerAtLastLevel
    else
      let filled ←
        cache.handleFill rp cfg pkt place (cache.allocates cfg mshr pkt) tick
      .ok (some filled.ref, filled.cache, filled.writebacks, filled.pkt)
  else .ok (place.map .tag, cache, [], pkt)

def orFail {α : Type} : Option α → Except Failure α
  | some a => .ok a
  | none => .error .assertion

/-- The call of `promoteReadable`, after a clean operation. -/
def readableStage (mshr : Mshr) (pkt : Packet) (ref : Option BlkRef) (cache : Cache R) :
    Except Failure (Mshr × Cache R) :=
  match ref.filter fun ref => (cache.getBlk ref).valid && pkt.isClean && !pkt.isInvalidate with
  | some ref =>
    (orFail mshr.promoteReadable).map fun mshr =>
      (mshr, cache.setBlk ref { cache.getBlk ref with readable := true })
  | none => .ok (mshr, cache)

/-- The call of `promoteWritable`. -/
def writableStage (mshr : Mshr) (pkt : Packet) (ref : Option BlkRef) (cache : Cache R) :
    Except Failure Mshr :=
  if (ref.any fun ref => (cache.getBlk ref).writable) && !pkt.req.isCacheInvalidate then
    orFail mshr.promoteWritable
  else .ok mshr

def promoteStage (mshr : Mshr) (pkt : Packet) (ref : Option BlkRef) (cache : Cache R) :
    Except Failure (Mshr × Cache R) := do
  let (mshr, cache) ← readableStage mshr pkt ref cache
  let mshr ← writableStage mshr pkt ref cache
  .ok (mshr, cache)

/-- The MSHR goes back to pending with its remaining targets, or is freed. A
block that waits for another response is not readable. -/
def retireStage (id : Nat) (mshr : Mshr) (ref : Option BlkRef) (cache : Cache R) : Cache R :=
  match mshr.promoteDeferredTargets with
  | some mshr =>
    let cache := cache.setMshr id { mshr with inService := false }
    match ref with
    | some ref => cache.setBlk ref { cache.getBlk ref with readable := false }
    | none => cache
  | none => cache.removeMshr id

/-- The eviction of the temporary block, marked no-fill. -/
def evictTemp (cfg : CacheParams) (ref : Option BlkRef) (cache : Cache R) :
    Cache R × List Packet :=
  if ref = some .temp && cache.tempBlock.valid then
    ({ cache with tempBlock := {} },
      [{ evictionPacket cfg cache.tempBlock with mayNotFill := true }])
  else (cache, [])

def findId (cache : Cache R) (id : Nat) : Option MshrEntry := cache.mshrs.find? fun e => e.id = id

/-- The MSHR a response belongs to, and the assertions on the pair. -/
def answered (cache : Cache R) (id : Nat) (pkt : Packet) : Option Mshr :=
  (cache.findId id).bind fun e =>
    if e.mshr.inService && !e.mshr.targets.list.isEmpty && pkt.isResponse && !pkt.isWrite &&
        (!e.mshr.wasWholeLineWrite || pkt.isInvalidate) then some e.mshr
    else none

/-- `recvTimingResp`, with the responses sent up. -/
def recvTimingResp (rp : ReplacementPolicy R) (cfg : CacheParams)
    (cachedAbove : Packet → Bool) (cache : Cache R) (id : Nat) (pkt : Packet) (tick : Nat) :
    Except Failure (Cache R × List Packet) := do
  let mshr ← orFail (cache.answered id pkt)
  let (ref, cache, writebacks, pkt) ← cache.fillStage rp cfg mshr pkt tick
  let (mshr, cache) ← promoteStage mshr pkt ref cache
  let (ready, left) ← orFail (mshr.extractServiceableTargets pkt.cmd)
  let (cache, sent) ←
    cache.serviceMSHRTargets rp cfg cachedAbove mshr pkt ref ready
  let cache := retireStage id left ref cache
  let (cache, evicted) := evictTemp cfg ref cache
  .ok (cache.doWritebacks cachedAbove (writebacks ++ evicted), sent)

/-! ### Requests -/

/-- What `access` finds. -/
structure Access (R : Type) where
  satisfied : Bool
  place : Option Place
  cache : Cache R
  writebacks : List Packet
  pkt : Packet

/-- An eviction from above meets a writeback of this cache in the write buffer. -/
def mergeEviction (cfg : CacheParams) (cache : Cache R) (pkt : Packet) :
    Except Failure (Option (Cache R)) :=
  match cache.findWrite cfg pkt.rawLine with
  | none => .ok none
  | some wb =>
    if !wb.isWriteback then .error .assertion
    else if pkt.isCleanEviction then
      .ok (some { cache with
        writeBuffer := cache.writeBuffer.map fun p =>
          if p = wb then { p with blockCached := false } else p })
    else .ok none

/-- The dirty writeback from above replaces the one in the write buffer. -/
def dropWrite (cfg : CacheParams) (cache : Cache R) (pkt : Packet) : Cache R :=
  match cache.findWrite cfg pkt.rawLine with
  | some wb => { cache with writeBuffer := cache.writeBuffer.erase wb }
  | none => cache

/-- The block for a writeback or WriteClean from above: a no-fill one never
allocates. -/
def blockForWrite (rp : ReplacementPolicy R) (cfg : CacheParams) (cache : Cache R)
    (pkt : Packet) (place : Option Place) (tick : Nat) :
    Except Failure (Option Place × Cache R × List Packet) :=
  match place with
  | some place => .ok (some place, cache, [])
  | none =>
    if cfg.nofillEn && pkt.mayNotFill then .ok (none, cache, [])
    else do
      let (place, cache, writebacks) ←
        cache.allocateBlock rp cfg (pkt.line cfg.blkSize) tick
      match place with
      | some place =>
        .ok (some place,
          cache.setBlk (.tag place) { cache.getBlk (.tag place) with readable := true },
          writebacks)
      | none => .ok (none, cache, writebacks)

/-- The block a writeback or WriteClean is written to. A WriteClean passes the
dirty data on, but not a writable copy. -/
def writeBits (pkt : Packet) (blk : CacheBlk) : CacheBlk :=
  { blk with
    dirty := blk.dirty || (decide (pkt.cmd ≠ .writebackClean) && !pkt.writeThrough)
    writable := blk.writable || (pkt.isWriteback && !pkt.hasSharers)
    data := pkt.data.getD blk.data }

/-- `BaseCache::access` from the writeback case on, for the block found. -/
def accessBlk (rp : ReplacementPolicy R) (cfg : CacheParams) (cache : Cache R)
    (pkt : Packet) (place : Option Place) (tick : Nat) : Except Failure (Access R) :=
  if pkt.isWriteback || pkt.cmd = .writeClean then
    if pkt.size ≠ cfg.blkSize then .error .assertion
    else if pkt.cmd = .writebackClean && (cache.findMshr pkt.rawLine).isSome then
      .ok ⟨true, place, cache, [], pkt⟩
    else if pkt.cmd = .writeClean && pkt.writeThrough && place.isNone then
      .ok ⟨false, none, cache, [], pkt⟩
    else do
      let (place, cache, writebacks) ← cache.blockForWrite rp cfg pkt place tick
      match place with
      | none => .ok ⟨false, none, cache, writebacks, pkt⟩
      | some place =>
        .ok ⟨!pkt.writeThrough, some place,
          cache.setBlk (.tag place) (writeBits pkt (cache.getBlk (.tag place))), writebacks, pkt⟩
  else if pkt.cmd = .cleanEvict then .ok ⟨place.isSome, place, cache, [], pkt⟩
  else
    let usable := place.filter fun place =>
      let blk := cache.getBlk (.tag place)
      if pkt.needsWritable then blk.writable else blk.readable
    match usable with
    | some place => do
      let (cache, pkt) ← cache.satisfyRequest rp cfg pkt (.tag place) false false
      let cache := cache.maintainClusivity rp cfg pkt.fromCache (.tag place)
      .ok ⟨true, some place, cache, [], pkt⟩
    | none =>
      -- a store conditional that misses completely gives up
      .ok ⟨place.isNone && pkt.isLLSC && pkt.isWrite, place, cache, [], pkt⟩

/-- `Cache::access`. An uncacheable access flushes the block. -/
def access (rp : ReplacementPolicy R) (cfg : CacheParams) (cache : Cache R) (pkt : Packet)
    (tick : Nat) : Except Failure (Access R) := do
  let key := pkt.line cfg.blkSize
  if !pkt.isRequest then .error .assertion
  else if pkt.req.flags.uncacheable then
    match cache.tags.findBlock rp key with
    | some place =>
      .ok ⟨false, none, cache.invalidateBlock rp (.tag place),
        [evictionPacket cfg (cache.tags.blk place)], pkt⟩
    | none => .ok ⟨false, none, cache, [], pkt⟩
  else
    let (place, tags) := cache.tags.accessBlock rp key pkt.mayNotFill tick
    let cache := { cache with tags }
    if pkt.cmd = .hardPFReq && pkt.mayNotFill then .error .assertion
    else if pkt.req.isCacheMaintenance then .ok ⟨false, place, cache, [], pkt⟩
    else if pkt.isEviction then
      match ← cache.mergeEviction cfg pkt with
      | some cache => .ok ⟨true, place, cache, [], pkt⟩
      | none => (cache.dropWrite cfg pkt).accessBlk rp cfg pkt place tick
    else cache.accessBlk rp cfg pkt place tick

/-- What a step sends: responses up, PfAcks and packets down. -/
structure Sent where
  up : List Packet := []
  pfAck : List Packet := []
  down : List Packet := []
deriving Repr, DecidableEq

/-- `allocateMissBuffer`. -/
def allocateMissBuffer (cfg : CacheParams) (cache : Cache R) (pkt : Packet)
    (clearNoFill : Bool) : Cache R :=
  let mshr := Mshr.allocateMissBuffer cfg.blkSize pkt cache.order (cfg.allocOnFill pkt.cmd)
    clearNoFill
  { cache with mshrs := cache.mshrs ++ [⟨cache.order, mshr⟩], order := cache.order + 1 }

/-- A packet coalesces with the MSHR it hits. A demand fetch that may fill tells
the level below, with the packet as it is. -/
def coalesce (cfg : CacheParams) (cache : Cache R) (e : MshrEntry) (pkt : Packet) :
    Except Failure (Cache R × Sent) := do
  if pkt.isWriteback then .error .assertion
  else if pkt.cmd = .cleanEvict then .ok (cache, {})
  else if pkt.cmd = .writeClean then
    .ok ({ cache with writeBuffer := cache.writeBuffer ++ [pkt] }, {})
  else
    let acks := pkt.isDemandFetch && e.mshr.mayNotFill && !pkt.mayNotFill &&
      decide (cfg.cacheLevel = 1)
    let mshr ← orFail (e.mshr.allocateTarget pkt cache.order (cfg.allocOnFill pkt.cmd))
    .ok ({ cache.setMshr e.id mshr with order := cache.order + 1 },
      { pfAck := if acks then [pkt] else [] })

/-- The checks of `handleTimingReqMiss` on the MSHR of a no-fill packet. -/
def noFillPanic (cfg : CacheParams) (pkt : Packet) (mshr : Mshr) : Option Failure :=
  if pkt.mayNotFill && (pkt.isRead || pkt.isWrite) then
    if cfg.nofillEn && !mshr.mayNotFill then some .noFillOpensFill
    else if !pkt.isDemandFetch then some .noFillWithoutDemand
    else none
  else none

/-- A miss without an MSHR. -/
def openMiss (cfg : CacheParams) (cache : Cache R) (pkt : Packet) (place : Option Place) :
    Except Failure (Cache R × Sent) :=
  if pkt.isEviction || pkt.cmd = .writeClean then
    .ok ({ cache with writeBuffer := cache.writeBuffer ++ [pkt] }, {})
  else
    let blocked := place.any fun place =>
      let blk := cache.getBlk (.tag place)
      !((pkt.needsWritable && !blk.writable) || pkt.req.isCacheMaintenance)
    if blocked then .error .assertion
    else
      let cache :=
        match place with
        | some place =>
          cache.setBlk (.tag place) { cache.getBlk (.tag place) with readable := false }
        | none => cache
      let mshr := Mshr.allocateMissBuffer cfg.blkSize pkt cache.order
        (cfg.allocOnFill pkt.cmd) (!cfg.nofillEn)
      match noFillPanic cfg pkt mshr with
      | some why => .error why
      | none => .ok (cache.allocateMissBuffer cfg pkt (!cfg.nofillEn), {})

/-- `handleTimingReqMiss` of both classes. -/
def handleTimingReqMiss (cfg : CacheParams) (cache : Cache R) (pkt : Packet)
    (place : Option Place) : Except Failure (Cache R × Sent) := do
  if pkt.req.flags.uncacheable then
    if pkt.isWrite then .ok ({ cache with writeBuffer := cache.writeBuffer ++ [pkt] }, {})
    else if pkt.isRead then .ok (cache.allocateMissBuffer cfg pkt false, {})
    else .error .assertion
  else
    let cache :=
      if cfg.hasWriteAllocator && pkt.isWrite then
        { cache with
          writeAllocator := cache.writeAllocator.updateMode cfg pkt.addr pkt.size }
      else cache
    let hit := cache.findMshr (pkt.line cfg.blkSize)
    if pkt.isSWPrefetch then
      -- the core is answered at once; a new packet takes the place of the prefetch
      let answer := pkt.makeResponse
      match hit with
      | some _ => .ok (cache, { up := [answer] })
      | none => do
        let copy := Packet.ofRequest pkt.req pkt.cmd pkt.addr pkt.size
        let (cache, sent) ← cache.openMiss cfg copy place
        .ok (cache, { sent with up := [answer] })
    else
      match hit with
      | some e => cache.coalesce cfg e pkt
      | none => cache.openMiss cfg pkt place

/-- `recvTimingReq`. -/
def recvTimingReq (rp : ReplacementPolicy R) (cfg : CacheParams)
    (cachedAbove : Packet → Bool) (cache : Cache R) (pkt : Packet) (tick : Nat) :
    Except Failure (Cache R × Sent) := do
  let found ← cache.access rp cfg pkt tick
  let cache := found.cache.doWritebacks cachedAbove found.writebacks
  if found.satisfied then
    .ok (cache, { up := if pkt.needsResponse then [found.pkt.makeResponse] else [] })
  else cache.handleTimingReqMiss cfg found.pkt found.place

/-! ### Sending misses and writes -/

/-- `createMissPacket`; `none` when the target is forwarded as it is. The new
packet takes its no-fill mark from the request of the first target. -/
def createMissPacket (cfg : CacheParams) (pkt : Packet) (blk : Option CacheBlk)
    (needsWritable isWholeLineWrite : Bool) : Option Packet :=
  if pkt.req.flags.uncacheable || (blk.isNone && pkt.isUpgrade) || pkt.cmd = .invalidateReq ||
      pkt.isClean then none
  else
    let cmd : MemCmd :=
      if isWholeLineWrite then .invalidateReq
      else if blk.isSome then if pkt.isLLSC then .scUpgradeReq else .upgradeReq
      else if pkt.cmd = .scUpgradeFailReq || pkt.cmd = .storeCondFailReq then .scUpgradeFailReq
      else if needsWritable then .readExReq
      else if cfg.isReadOnly || cfg.mostlyExcl then .readCleanReq
      else .readSharedReq
    some { Packet.ofBlock pkt.req cmd pkt.addr cfg.blkSize with
      hasSharers := pkt.hasSharers && !needsWritable }

/-- The packet `sendMSHRQueuePacket` sends for the MSHR, and whether it is
forwarded. -/
def missPacket (rp : ReplacementPolicy R) (cfg : CacheParams) (cache : Cache R)
    (mshr : Mshr) : Option (Packet × Bool) :=
  mshr.targets.list.head?.map fun t =>
    let blk := (cache.tags.findBlock rp mshr.key).map cache.tags.blk
    match createMissPacket cfg t.pkt blk mshr.needsWritable
        mshr.targets.flags.isWholeLineWrite with
    | some pkt => (pkt, false)
    | none => ({ t.pkt with noFillLower := false, blockCached := false }, true)

/-- `sendMSHRQueuePacket`, once the packet is accepted below. The answer of the
snooped neighbours is `pendingModifiedResp`. -/
def sendMSHRQueuePacket (rp : ReplacementPolicy R) (cfg : CacheParams)
    (cachedAbove : Packet → Bool) (cache : Cache R) (id : Nat) (pendingModifiedResp : Bool) :
    Except Failure (Cache R × Sent) := do
  let e ← orFail (cache.findId id)
  if e.mshr.inService then .error .assertion
  else
    let (pkt, isForward) ← orFail (cache.missPacket rp cfg e.mshr)
    let place := cache.tags.findBlock rp e.mshr.key
    -- the mode is reset when the write was not a whole line after all
    let writeAllocator :=
      if cfg.hasWriteAllocator && decide (cache.writeAllocator.mode ≠ .allocate) &&
          (e.mshr.targets.list.head?.any fun t => t.pkt.isWrite) &&
          !e.mshr.targets.flags.isWholeLineWrite then {}
      else cache.writeAllocator
    let cache :=
      { cache.setMshr id (Mshr.markInService { e.mshr with isForward } pendingModifiedResp) with
        writeAllocator }
    let cache :=
      match place.filter fun place => pkt.isClean && (cache.tags.blk place).dirty with
      | some place =>
        let blk := cache.tags.blk place
        (cache.setBlk (.tag place) { blk with dirty := false, writable := false }).doWritebacks
          cachedAbove [writecleanPacket cfg blk pkt]
      | none => cache
    .ok (cache, { down := [pkt] })

/-- `sendWriteQueuePacket`: an entry of the write buffer leaves. -/
def sendWriteQueuePacket (cache : Cache R) (i : Nat) : Except Failure (Cache R × Sent) := do
  let pkt ← orFail cache.writeBuffer[i]?
  .ok ({ cache with writeBuffer := cache.writeBuffer.eraseIdx i }, { down := [pkt] })

/-! ### Prefetches and PfAcks -/

/-- Clears the no-fill flag of one MSHR. -/
def grantFill (cache : Cache R) (e : MshrEntry) : Cache R :=
  cache.setMshr e.id (e.mshr.updateMayNotFill false)

/-- `recvPfAck`: the MSHR is looked up at the address the packet carries. -/
def recvPfAck (cfg : CacheParams) (cache : Cache R) (pkt : Packet) :
    Except Failure (Cache R) :=
  if !pkt.isDemandFetch && pkt.getOffset cfg.blkSize ≠ 0 then .error .assertion
  else
    match cache.findMshr pkt.rawLine with
    | some e => .ok (if cfg.pfAckEn then cache.grantFill e else cache)
    | none => .ok cache

/-- The packet the prefetchers create: no flag but the secure one is set. -/
def prefetchPacket (cfg : CacheParams) (key : LineKey) : Packet :=
  Packet.ofBlock { flags := { secure := key.isSecure }, domainID := key.domainID } .hardPFReq
    key.blkAddr cfg.blkSize

/-- The prefetch part of `getNextQueueEntry`, for the line the prefetcher asks
for. -/
def issuePrefetch (rp : ReplacementPolicy R) (cfg : CacheParams) (cache : Cache R)
    (line : LineKey) : Cache R × Sent :=
  let pkt := prefetchPacket cfg line
  let key := pkt.line cfg.blkSize
  match cache.findMshr key with
  | some e =>
    if cfg.pfAckEn then
      (cache.grantFill e, { pfAck := if cfg.cacheLevel = 1 then [pkt] else [] })
    else (cache, {})
  | none =>
    if (cache.tags.findBlock rp key).isSome || (cache.findWrite cfg key).isSome then
      (cache, {})
    else (cache.allocateMissBuffer cfg pkt true, {})

/-- A cache above has the block: the prefetch at the front of the MSHR is
dropped. -/
def squashPrefetch (cache : Cache R) (id : Nat) : Except Failure (Cache R) := do
  let e ← orFail (cache.findId id)
  let front ← orFail e.mshr.targets.list.head?
  if e.mshr.inService || front.pkt.cmd ≠ .hardPFReq then .error .assertion
  else
    match ← orFail e.mshr.forceDeallocateTarget with
    | some mshr => .ok (cache.setMshr id mshr)
    | none => .ok (cache.removeMshr id)

/-! ### Snoops -/

/-- The write buffer's part of `recvTimingSnoopReq`. -/
def snoopWrite (cfg : CacheParams) (cache : Cache R) (pkt : Packet) : Cache R :=
  match cache.findWrite cfg (pkt.line cfg.blkSize) with
  | none => cache
  | some wb =>
    if pkt.isInvalidate && wb.cmd ≠ .writeClean then
      { cache with writeBuffer := cache.writeBuffer.erase wb }
    else if !pkt.req.flags.uncacheable && pkt.isRead && !pkt.isInvalidate then
      { cache with
        writeBuffer := cache.writeBuffer.map fun p =>
          if p = wb then { p with hasSharers := true } else p }
    else cache

/-- The write buffer and the block are snooped behind the MSHR. -/
def snoopBlock (rp : ReplacementPolicy R) (cfg : CacheParams) (cachedAbove : Packet → Bool)
    (cache : Cache R) (key : LineKey) (pkt : Packet) : Cache R :=
  if pkt.isEviction && (cache.findWrite cfg key).isSome then cache
  else
    let place := cache.tags.findBlock rp key
    let cache := cache.snoopWrite cfg pkt
    match place with
    | some place => cache.replaySnoop rp cfg cachedAbove pkt (.tag place)
    | none => cache

/-- A clean request that was marked already finds a dirty block and is marked again, which
`setSatisfied` asserts against. -/
def marksAgain (rp : ReplacementPolicy R) (cache : Cache R) (key : LineKey) (pkt : Packet) :
    Bool :=
  pkt.isClean && pkt.satisfied &&
    (cache.tags.findBlock rp key).any fun place => (cache.tags.blk place).dirty

/-- `recvTimingSnoopReq`, as far as it changes this cache. -/
def recvTimingSnoopReq (rp : ReplacementPolicy R) (cfg : CacheParams)
    (cachedAbove : Packet → Bool) (cache : Cache R) (pkt : Packet) : Except Failure (Cache R) := do
  let key := pkt.line cfg.blkSize
  match cache.findMshr key with
  | none =>
    if cache.marksAgain rp key pkt then .error .assertion
    else .ok (cache.snoopBlock rp cfg cachedAbove key pkt)
  | some e =>
    if pkt.mustCheckAbove then .ok cache
    else
      let result ← orFail (e.mshr.handleSnoop pkt cache.order)
      let cache := { cache.setMshr e.id result.mshr with order := cache.order + 1 }
      if result.willRespond then .ok cache
      else if cache.marksAgain rp key result.pkt then .error .assertion
      else .ok (cache.snoopBlock rp cfg cachedAbove key result.pkt)

end Cache

/-! ### Steps -/

/-- What can happen to a cache. `above` answers `isCachedAbove`. -/
inductive CacheEvent where
  | recvTimingReq (pkt : Packet) (tick : Nat) (above : Packet → Bool)
  | recvTimingResp (id : Nat) (pkt : Packet) (tick : Nat) (above : Packet → Bool)
  | sendMSHRQueuePacket (id : Nat) (pendingModifiedResp : Bool) (above : Packet → Bool)
  | sendWriteQueuePacket (i : Nat)
  | recvPfAck (pkt : Packet)
  | issuePrefetch (line : LineKey)
  | squashPrefetch (id : Nat)
  | recvTimingSnoopReq (pkt : Packet) (above : Packet → Bool)
  | setDownstreamPending (id : Nat) (pending : Bool)

namespace Cache

variable {R : Type} (rp : ReplacementPolicy R) (cfg : CacheParams)

/-- The step with what it sends, or the way it stops the simulation. -/
def handle (cache : Cache R) : CacheEvent → Except Failure (Cache R × Sent)
  | .recvTimingReq pkt tick above => cache.recvTimingReq rp cfg above pkt tick
  | .recvTimingResp id pkt tick above =>
    (cache.recvTimingResp rp cfg above id pkt tick).map fun (cache, up) => (cache, { up })
  | .sendMSHRQueuePacket id pendingModifiedResp above =>
    cache.sendMSHRQueuePacket rp cfg above id pendingModifiedResp
  | .sendWriteQueuePacket i => cache.sendWriteQueuePacket i
  | .recvPfAck pkt => (cache.recvPfAck cfg pkt).map fun cache => (cache, {})
  | .issuePrefetch line => .ok (cache.issuePrefetch rp cfg line)
  | .squashPrefetch id => (cache.squashPrefetch id).map fun cache => (cache, {})
  | .recvTimingSnoopReq pkt above =>
    (cache.recvTimingSnoopReq rp cfg above pkt).map fun cache => (cache, {})
  | .setDownstreamPending id pending =>
    .ok ({ cache with
      mshrs := cache.mshrs.map fun e =>
        if e.id = id then { e with mshr := { e.mshr with downstreamPending := pending } }
        else e }, {})

def step (cache : Cache R) (e : CacheEvent) : Option (Cache R) :=
  (cache.handle rp cfg e).toOption.map Prod.fst

/-- The cache before its first request. -/
def empty (repl : R) : Cache R where
  tags := { blk := fun _ => {}, repl }

end Cache

end RasCache.Mem
