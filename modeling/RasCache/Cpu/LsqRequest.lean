import RasCache.Cpu.SplitAccess
import RasCache.Mem.Packet

/-!
# The requests of the load/store queue

Model of `LSQ::pushRequest` and of the single and split data requests
(`cpu/o3/lsq.hh`, `cpu/o3/lsq_impl.hh`) from `addRequest` to `buildPackets`, with
`makeReadCmd` and `makeWriteCmd` (`mem/packet.hh`). The fragments of a split request
are those of `SplitAccess`. Transactional memory commands are left out.
-/
namespace RasCache.Cpu

open Mem

/-- The parameters of the CPU that decide which requests are marked NO_FILL. -/
structure DefenceMode where
  rasAll : Bool := false
  rasLoad : Bool := false
  rasSpec : Bool := false
deriving Repr, DecidableEq

/-- The flags of a request, with those that only choose the command of its packet. -/
structure AccessFlags extends RequestFlags where
  prefetch : Bool := false
  pfExclusive : Bool := false
  atomicReturnOp : Bool := false
  atomicNoReturnOp : Bool := false
deriving Repr, DecidableEq

namespace AccessFlags

def isPrefetch (flags : AccessFlags) : Bool := flags.prefetch || flags.pfExclusive

def isSwap (flags : AccessFlags) : Bool := flags.memSwap || flags.memSwapCond

def isAtomic (flags : AccessFlags) : Bool := flags.atomicReturnOp || flags.atomicNoReturnOp

def makeReadCmd (flags : AccessFlags) : MemCmd :=
  if flags.llsc then .loadLockedReq
  else if flags.pfExclusive then .softPFExReq
  else if flags.isPrefetch then .softPFReq
  else .readReq

def makeWriteCmd (flags : AccessFlags) : MemCmd :=
  if flags.llsc then .storeCondReq
  else if flags.isSwap || flags.isAtomic then .swapReq
  else if flags.invalidate then if flags.clean then .cleanInvalidReq else .invalidateReq
  else if flags.clean then .cleanSharedReq
  else .writeReq

end AccessFlags

/-- A memory instruction, as `pushRequest` gets it. `hasAmoOp` says that it brings an
atomic operation, `prevInstsCompleted` that no older instruction is incomplete. -/
structure MemAccess where
  isLoad : Bool
  addr : Mem.Addr
  size : Nat
  flags : AccessFlags := {}
  byteEnable : List Bool
  hasAmoOp : Bool := false
  prevInstsCompleted : Bool := true
  domainID : DomainID := 0
  copyDomainID : DomainID := 0
deriving Repr, DecidableEq

/-- A request of the queue, before its address is translated. -/
structure LsqRequest where
  vaddr : Mem.Addr
  size : Nat
  flags : AccessFlags
  domainID : DomainID
  copyDomainID : DomainID
deriving Repr, DecidableEq

/-- What a translation that raises no fault adds to a request. -/
structure Translation where
  paddr : Mem.Addr
  uncacheable : Bool := false
  strictOrder : Bool := false
deriving Repr, DecidableEq

namespace MemAccess

variable (mode : DefenceMode) (cacheLineSize : Nat) (access : MemAccess)

/-- The condition of `addRequest` for NO_FILL. -/
def noFills : Bool :=
  mode.rasAll || (mode.rasLoad && access.isLoad) ||
    (mode.rasSpec && access.isLoad && !access.prevInstsCompleted)

/-- `addRequest`: a request without an active byte is not added. The flags are set on
top of those of the instruction. -/
def addRequest (requests : List LsqRequest) (addr : Mem.Addr) (size : Nat)
    (byteEnable : List Bool) : List LsqRequest :=
  if byteEnable.any id then
    let flags : AccessFlags := { access.flags with
      noFill := access.flags.noFill || access.noFills mode
      demandFetch := true }
    requests ++ [⟨addr, size, flags, access.domainID, access.copyDomainID⟩]
  else requests

/-- `addRequest` for every fragment. -/
def addFragments (requests : List LsqRequest) (fragments : List SplitAccess.Fragment) :
    List LsqRequest :=
  fragments.foldl
    (fun requests f => access.addRequest mode requests f.addr.toNat f.size.toNat f.byteEnable)
    requests

/-- `SplitDataRequest::initiateTranslation`, whose loop has a turn for each byte. -/
def splitRequests : Option (List LsqRequest) :=
  (SplitAccess.initiateTranslation (.ofNat 32 cacheLineSize) access.size (.ofNat 64 access.addr)
    (.ofNat 32 access.size) access.byteEnable).map (access.addFragments mode [])

/-- The requests of an instruction. An atomic operation must not cross a line. -/
def requests : Option (List LsqRequest) :=
  if SplitAccess.transferNeedsBurst access.addr access.size cacheLineSize then
    if !access.isLoad && access.hasAmoOp then none
    else access.splitRequests mode cacheLineSize
  else some (access.addRequest mode [] access.addr access.size access.byteEnable)

end MemAccess

/-- `createRead` or `createWrite`, for a translated request. -/
def LsqRequest.packet (isLoad : Bool) (r : LsqRequest) (t : Translation) : Packet :=
  let flags := { r.flags.toRequestFlags with
    uncacheable := r.flags.uncacheable || t.uncacheable
    strictOrder := r.flags.strictOrder || t.strictOrder }
  let cmd := if isLoad then r.flags.makeReadCmd else r.flags.makeWriteCmd
  .ofRequest { flags, domainID := r.domainID, copyDomainID := r.copyDomainID } cmd t.paddr r.size

/-- `buildPackets`: one packet for each request before the first that faults. -/
def buildPackets (isLoad : Bool) (tlb : LsqRequest → Option Translation) :
    List LsqRequest → List Packet
  | [] => []
  | r :: rest =>
    match tlb r with
    | some t => r.packet isLoad t :: buildPackets isLoad tlb rest
    | none => []

/-- The packets an instruction sends to the cache. -/
def MemAccess.packets (mode : DefenceMode) (cacheLineSize : Nat)
    (tlb : LsqRequest → Option Translation) (access : MemAccess) : Option (List Packet) :=
  (access.requests mode cacheLineSize).map (buildPackets access.isLoad tlb)

/-! ### Every request is a demand fetch -/

namespace MemAccess

variable (mode : DefenceMode) (cacheLineSize : Nat) (access : MemAccess)

theorem addRequest_demand (requests : List LsqRequest) (addr : Mem.Addr) (size : Nat)
    (byteEnable : List Bool) (so_far : ∀ r ∈ requests, r.flags.demandFetch = true) :
    ∀ r ∈ access.addRequest mode requests addr size byteEnable, r.flags.demandFetch = true := by
  intro r mem
  unfold addRequest at mem
  split at mem
  · rcases List.mem_append.mp mem with old | new
    · exact so_far r old
    · obtain rfl := List.mem_singleton.mp new
      rfl
  · exact so_far r mem

theorem addFragments_demand (requests : List LsqRequest) (fragments : List SplitAccess.Fragment)
    (so_far : ∀ r ∈ requests, r.flags.demandFetch = true) :
    ∀ r ∈ access.addFragments mode requests fragments, r.flags.demandFetch = true := by
  induction fragments generalizing requests with
  | nil => exact so_far
  | cons _ _ ih => exact ih _ (access.addRequest_demand mode _ _ _ _ so_far)

theorem requests_demand (requests : List LsqRequest)
    (made : access.requests mode cacheLineSize = some requests) :
    ∀ r ∈ requests, r.flags.demandFetch = true := by
  have none_yet : ∀ r ∈ ([] : List LsqRequest), r.flags.demandFetch = true := by simp
  unfold MemAccess.requests at made
  split at made
  · split at made
    · cases made
    · obtain ⟨fragments, _, rfl⟩ := Option.map_eq_some_iff.mp made
      exact access.addFragments_demand mode [] fragments none_yet
  · cases made
    exact access.addRequest_demand mode _ _ _ _ none_yet

end MemAccess

theorem mem_buildPackets {isLoad : Bool} {tlb : LsqRequest → Option Translation}
    {requests : List LsqRequest} {pkt : Packet} (mem : pkt ∈ buildPackets isLoad tlb requests) :
    ∃ r ∈ requests, ∃ t, pkt = r.packet isLoad t := by
  induction requests with
  | nil => cases mem
  | cons r _ ih =>
    rw [buildPackets] at mem
    split at mem
    next t _ =>
      rcases List.mem_cons.mp mem with rfl | later
      · exact ⟨r, List.mem_cons_self, t, rfl⟩
      · obtain ⟨r, waits, t, made⟩ := ih later
        exact ⟨r, List.mem_cons_of_mem _ waits, t, made⟩
    next => cases mem

/-- In every mode, every packet of the queue carries DEMAND_FETCH. -/
theorem MemAccess.packets_demand {mode : DefenceMode} {cacheLineSize : Nat}
    {tlb : LsqRequest → Option Translation} (access : MemAccess) {packets : List Packet}
    (made : access.packets mode cacheLineSize tlb = some packets) :
    ∀ pkt ∈ packets, pkt.req.flags.demandFetch = true := by
  obtain ⟨requests, added, rfl⟩ := Option.map_eq_some_iff.mp made
  intro _ mem
  obtain ⟨r, waits, _, rfl⟩ := mem_buildPackets mem
  exact access.requests_demand mode cacheLineSize requests added r waits

end RasCache.Cpu
