import Mathlib.Data.List.Basic

/-!
# Memory commands, requests and packets

Model of `mem/packet.hh`, `mem/packet.cc` and the part of `mem/request.hh` the
caches read. `MemCmd.attributes` is the table `MemCmd::commandInfo`, restricted
to the commands a classic cache sends or receives.
-/
namespace RasCache.Mem

abbrev Addr := Nat
abbrev DomainID := Nat

inductive Attribute where
  | isRead | isWrite | isUpgrade | isInvalidate | isClean | needsWritable
  | isRequest | isResponse | needsResponse | isEviction
  | isSWPrefetch | isHWPrefetch | isLlsc | hasData | fromCache
deriving Repr, DecidableEq

inductive MemCmd where
  | readReq | readResp | readRespWithInvalidate | writeReq | writeResp
  | writebackDirty | writebackClean | writeClean | cleanEvict
  | softPFReq | softPFExReq | hardPFReq | softPFResp | hardPFResp
  | writeLineReq | upgradeReq | scUpgradeReq | upgradeResp
  | scUpgradeFailReq | upgradeFailResp | readExReq | readExResp
  | readCleanReq | readSharedReq | loadLockedReq
  | storeCondReq | storeCondFailReq | storeCondResp | swapReq | swapResp
  | cleanSharedReq | cleanSharedResp | cleanInvalidReq | cleanInvalidResp
  | invalidateReq | invalidateResp
deriving Repr, DecidableEq

namespace MemCmd

def attributes : MemCmd → List Attribute
  | readReq => [.isRead, .isRequest, .needsResponse]
  | readResp => [.isRead, .isResponse, .hasData]
  | readRespWithInvalidate => [.isRead, .isResponse, .hasData, .isInvalidate]
  | writeReq => [.isWrite, .needsWritable, .isRequest, .needsResponse, .hasData]
  | writeResp => [.isWrite, .isResponse]
  | writebackDirty => [.isWrite, .isRequest, .isEviction, .hasData, .fromCache]
  | writebackClean => [.isWrite, .isRequest, .isEviction, .hasData, .fromCache]
  | writeClean => [.isWrite, .isRequest, .hasData, .fromCache]
  | cleanEvict => [.isRequest, .isEviction, .fromCache]
  | softPFReq => [.isRead, .isRequest, .isSWPrefetch, .needsResponse]
  | softPFExReq =>
    [.isRead, .needsWritable, .isInvalidate, .isRequest, .isSWPrefetch, .needsResponse]
  | hardPFReq => [.isRead, .isRequest, .isHWPrefetch, .needsResponse, .fromCache]
  | softPFResp => [.isRead, .isResponse, .isSWPrefetch, .hasData]
  | hardPFResp => [.isRead, .isResponse, .isHWPrefetch, .hasData]
  | writeLineReq => [.isWrite, .needsWritable, .isRequest, .needsResponse, .hasData]
  | upgradeReq =>
    [.isInvalidate, .needsWritable, .isUpgrade, .isRequest, .needsResponse, .fromCache]
  | scUpgradeReq =>
    [.isInvalidate, .needsWritable, .isUpgrade, .isLlsc, .isRequest, .needsResponse, .fromCache]
  | upgradeResp => [.isUpgrade, .isResponse]
  | scUpgradeFailReq =>
    [.isRead, .needsWritable, .isInvalidate, .isLlsc, .isRequest, .needsResponse, .fromCache]
  | upgradeFailResp => [.isRead, .isResponse, .hasData]
  | readExReq =>
    [.isRead, .needsWritable, .isInvalidate, .isRequest, .needsResponse, .fromCache]
  | readExResp => [.isRead, .isResponse, .hasData]
  | readCleanReq => [.isRead, .isRequest, .needsResponse, .fromCache]
  | readSharedReq => [.isRead, .isRequest, .needsResponse, .fromCache]
  | loadLockedReq => [.isRead, .isLlsc, .isRequest, .needsResponse]
  | storeCondReq => [.isWrite, .needsWritable, .isLlsc, .isRequest, .needsResponse, .hasData]
  | storeCondFailReq =>
    [.isWrite, .needsWritable, .isLlsc, .isRequest, .needsResponse, .hasData]
  | storeCondResp => [.isWrite, .isLlsc, .isResponse]
  | swapReq => [.isRead, .isWrite, .needsWritable, .isRequest, .hasData, .needsResponse]
  | swapResp => [.isRead, .isWrite, .isResponse, .hasData]
  | cleanSharedReq => [.isRequest, .isClean, .needsResponse, .fromCache]
  | cleanSharedResp => [.isResponse, .isClean]
  | cleanInvalidReq => [.isRequest, .isInvalidate, .isClean, .needsResponse, .fromCache]
  | cleanInvalidResp => [.isResponse, .isInvalidate, .isClean]
  | invalidateReq => [.isInvalidate, .isRequest, .needsWritable, .needsResponse, .fromCache]
  | invalidateResp => [.isInvalidate, .isResponse]

def has (cmd : MemCmd) (a : Attribute) : Bool := cmd.attributes.contains a

/-- `responseCommand`; `none` is `InvalidCmd`. -/
def responseCommand : MemCmd → Option MemCmd
  | readReq | readCleanReq | readSharedReq | loadLockedReq => some readResp
  | writeReq | writeLineReq => some writeResp
  | softPFReq | softPFExReq => some softPFResp
  | hardPFReq => some hardPFResp
  | upgradeReq | scUpgradeReq => some upgradeResp
  | scUpgradeFailReq => some upgradeFailResp
  | readExReq => some readExResp
  | storeCondReq | storeCondFailReq => some storeCondResp
  | swapReq => some swapResp
  | cleanSharedReq => some cleanSharedResp
  | cleanInvalidReq => some cleanInvalidResp
  | invalidateReq => some invalidateResp
  | _ => none

end MemCmd

/-- The request flags the caches test. `invalidate` and `clean` are the cache
maintenance flags. -/
structure RequestFlags where
  uncacheable : Bool := false
  strictOrder : Bool := false
  privileged : Bool := false
  llsc : Bool := false
  memSwap : Bool := false
  memSwapCond : Bool := false
  secure : Bool := false
  invalidate : Bool := false
  clean : Bool := false
  /-- A destination of cache maintenance is set (`getDest`). -/
  dest : Bool := false
  noFill : Bool := false
  demandFetch : Bool := false
deriving Repr, DecidableEq

structure Request where
  flags : RequestFlags := {}
  domainID : DomainID := 0
  /-- What a copy of this request finds in its own storage. -/
  copyDomainID : DomainID := 0
deriving Repr, DecidableEq

/-- `Request(const Request &)`: the copy constructor sets every field but
`domainID`, which keeps whatever its storage held. -/
def Request.copy (req : Request) : Request := { req with domainID := req.copyDomainID }

def Request.isCacheInvalidate (req : Request) : Bool := req.flags.invalidate

def Request.isCacheMaintenance (req : Request) : Bool := req.flags.clean || req.flags.invalidate

/-- `mayNotFill` is MAY_NOT_FILL and `noFillLower` is NO_FILL_LOWER. Of the data,
`data` is the byte at one offset of the line, the same for every packet and every
block; a packet whose data do not reach that byte has `none`. -/
structure Packet where
  req : Request
  cmd : MemCmd
  addr : Addr
  size : Nat
  mayNotFill : Bool := false
  noFillLower : Bool := false
  hasSharers : Bool := false
  cacheResponding : Bool := false
  responderHadWritable : Bool := false
  expressSnoop : Bool := false
  writeThrough : Bool := false
  satisfied : Bool := false
  blockCached : Bool := false
  data : Option UInt8 := none
deriving Repr, DecidableEq

namespace Packet

/-- `Packet(req, cmd)`: a request marked NO_FILL gives a packet marked
MAY_NOT_FILL. -/
def ofRequest (req : Request) (cmd : MemCmd) (addr : Addr) (size : Nat) : Packet :=
  { req, cmd, addr, size, mayNotFill := req.flags.noFill }

def blkAlign (addr : Addr) (blkSize : Nat) : Addr := addr - addr % blkSize

/-- `Packet(req, cmd, blkSize)`: the packet for the whole block. -/
def ofBlock (req : Request) (cmd : MemCmd) (addr : Addr) (blkSize : Nat) : Packet :=
  ofRequest req cmd (blkAlign addr blkSize) blkSize

theorem blkAlign_idem (addr : Addr) (blkSize : Nat) :
    blkAlign (blkAlign addr blkSize) blkSize = blkAlign addr blkSize := by
  have aligned : blkAlign addr blkSize = blkSize * (addr / blkSize) :=
    Nat.sub_eq_of_eq_add (Nat.div_add_mod addr blkSize).symm
  rw [aligned, blkAlign, Nat.mul_mod_right, Nat.sub_zero]

def isRead (pkt : Packet) : Bool := pkt.cmd.has .isRead
def isWrite (pkt : Packet) : Bool := pkt.cmd.has .isWrite
def isUpgrade (pkt : Packet) : Bool := pkt.cmd.has .isUpgrade
def isInvalidate (pkt : Packet) : Bool := pkt.cmd.has .isInvalidate
def isClean (pkt : Packet) : Bool := pkt.cmd.has .isClean
def needsWritable (pkt : Packet) : Bool := pkt.cmd.has .needsWritable
def needsResponse (pkt : Packet) : Bool := pkt.cmd.has .needsResponse
def isEviction (pkt : Packet) : Bool := pkt.cmd.has .isEviction
def hasData (pkt : Packet) : Bool := pkt.cmd.has .hasData
def fromCache (pkt : Packet) : Bool := pkt.cmd.has .fromCache

def isDemandFetch (pkt : Packet) : Bool :=
  pkt.req.flags.demandFetch && (pkt.isRead || pkt.isWrite)

def isRequest (pkt : Packet) : Bool := pkt.cmd.has .isRequest
def isResponse (pkt : Packet) : Bool := pkt.cmd.has .isResponse
def isLLSC (pkt : Packet) : Bool := pkt.cmd.has .isLlsc
def isSWPrefetch (pkt : Packet) : Bool := pkt.cmd.has .isSWPrefetch

def isWriteback (pkt : Packet) : Bool := pkt.isEviction && pkt.hasData

def isCleanEviction (pkt : Packet) : Bool :=
  decide (pkt.cmd = .cleanEvict) || decide (pkt.cmd = .writebackClean)

def mustCheckAbove (pkt : Packet) : Bool := decide (pkt.cmd = .hardPFReq) || pkt.isEviction

def hasRespData (pkt : Packet) : Bool := pkt.cmd.responseCommand.any (·.has .hasData)

/-- `makeTimingResponse`. -/
def makeResponse (pkt : Packet) : Packet := { pkt with cmd := pkt.cmd.responseCommand.getD pkt.cmd }

/-- `copyResponderFlags`: HAS_SHARERS and CACHE_RESPONDING, and no other flag. -/
def copyResponderFlags (pkt resp : Packet) : Packet :=
  { pkt with
    hasSharers := pkt.hasSharers || resp.hasSharers
    cacheResponding := pkt.cacheResponding || resp.cacheResponding }

def isSecure (pkt : Packet) : Bool := pkt.req.flags.secure

def domainID (pkt : Packet) : DomainID := pkt.req.domainID

def getOffset (pkt : Packet) (blkSize : Nat) : Nat := pkt.addr % blkSize

/-- The request of a speculative access. -/
def noFillReq : Request := { flags := { noFill := true, demandFetch := true } }

/-- A speculative load. -/
def noFillLoad (addr : Addr) : Packet := ofRequest noFillReq .readReq addr 8

/-- The read a cache sends down for it. -/
def noFillRead : Packet := ofBlock noFillReq .readSharedReq 0 64

end Packet

end RasCache.Mem
