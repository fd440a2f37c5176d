import RasCache.Cpu.LsqRequest
import RasCache.Mem.Assertions
import RasCache.Mem.Downstream

/-!
# No-fill misses are demand fetches

`handleTimingReqMiss` panics when a no-fill packet that reads or writes opens an
MSHR that may fill, although no-fill is enabled, and when it is no demand fetch.
Both marks begin in the load/store queue, and a cache hands them on: in a miss
packet, in the new packet of a software prefetch, in the targets of an MSHR. They
part only in the eviction of the temporary block, which opens no MSHR. So in a
system of first-level caches above a second-level one neither panic is reached.
-/
namespace RasCache.Mem

open Outcomes Function

variable {R : Type}

/-! ### Marked packets -/

/-- NO_FILL comes with DEMAND_FETCH, and MAY_NOT_FILL too, unless the packet is an
eviction. -/
structure Packet.Marked (pkt : Packet) : Prop where
  request : pkt.req.flags.noFill = true → pkt.req.flags.demandFetch = true
  packet : pkt.mayNotFill = true → pkt.req.flags.demandFetch = true ∨ pkt.isEviction = true

namespace Packet

theorem marked_ofRequest {req : Request} (cmd : MemCmd) (addr : Addr) (size : Nat)
    (request : req.flags.noFill = true → req.flags.demandFetch = true) :
    (ofRequest req cmd addr size).Marked :=
  ⟨request, fun marked => .inl (request marked)⟩

theorem Marked.replaceUpgrade (pkt : Packet) (marked : pkt.Marked) :
    (Mem.replaceUpgrade pkt).Marked := by
  have stays (cmd : MemCmd) (keeps : pkt.isEviction = false) :
      ({ pkt with cmd } : Packet).Marked := by
    refine ⟨marked.request, fun noFill => .inl ?_⟩
    exact (marked.packet noFill).resolve_right (by simp [keeps])
  unfold Mem.replaceUpgrade
  split
  next upgrade => exact stays _ (by rw [isEviction, upgrade]; rfl)
  next upgrade => exact stays _ (by rw [isEviction, upgrade]; rfl)
  next conditional => exact stays _ (by rw [isEviction, conditional]; rfl)
  next => exact marked

/-- Evictions apart, a marked packet that may not fill is a demand fetch. -/
theorem Marked.isDemandFetch {pkt : Packet} (marked : pkt.Marked) (stays : pkt.isEviction = false)
    (noFill : pkt.mayNotFill = true) (moves : (pkt.isRead || pkt.isWrite) = true) :
    pkt.isDemandFetch = true := by
  rcases marked.packet noFill with demand | evicts
  · rw [Packet.isDemandFetch, demand, moves]
    rfl
  · rw [stays] at evicts
    cases evicts

end Packet

/-- What the panics ask of a new MSHR: a no-fill read or write among its targets is a
demand fetch, and the MSHR may not fill where no-fill is enabled. -/
def Mshr.HonoursNoFill (cfg : CacheParams) (mshr : Mshr) : Prop :=
  ∀ t ∈ mshr.waiting, t.pkt.mayNotFill = true → (t.pkt.isRead || t.pkt.isWrite) = true →
    t.pkt.isDemandFetch = true ∧ (cfg.nofillEn = true → mshr.mayNotFill = true)

namespace Cache

variable (rp : ReplacementPolicy R) (cfg : CacheParams)

/-! ### A new MSHR -/

variable {pkt : Packet} {cache after : Cache R} {sent : Sent} {e : CacheEvent}
  {clearNoFill : Bool} {tick : Nat}

theorem allocateMissBuffer_waiting {blkSize : Nat} {order : Nat} {allocOnFill : Bool} {t : Target}
    (mem : t ∈ (Mshr.allocateMissBuffer blkSize pkt order allocOnFill clearNoFill).waiting) :
    t.pkt = pkt := by
  have first : t ∈ (Mshr.allocate (Packet.blkAlign pkt.addr blkSize) blkSize pkt order
      allocOnFill).waiting := by
    unfold Mshr.allocateMissBuffer at mem
    dsimp only at mem
    split at mem
    · rw [Mshr.waiting, Mshr.updateMayNotFill_lists] at mem
      exact mem
    · exact mem
  rw [List.mem_singleton.mp first]

/-- Unless the flag is cleared, a new MSHR may not fill if its packet may not. -/
theorem allocateMissBuffer_mayNotFill (blkSize : Nat) (order : Nat) (allocOnFill : Bool)
    (noFill : pkt.mayNotFill = true) :
    (Mshr.allocateMissBuffer blkSize pkt order allocOnFill false).mayNotFill = true := by
  simp [Mshr.allocateMissBuffer, Mshr.mayNotFill, Mshr.allocate, TargetList.add, noFill]
  rfl

theorem allocateMissBuffer_honours (order : Nat) (marked : pkt.Marked)
    (stays : pkt.isEviction = false) (cleared : clearNoFill = true → cfg.nofillEn = false) :
    (Mshr.allocateMissBuffer cfg.blkSize pkt order (cfg.allocOnFill pkt.cmd)
      clearNoFill).HonoursNoFill cfg := by
  intro _ mem noFill moves
  have same := allocateMissBuffer_waiting mem
  rw [same] at noFill moves ⊢
  refine ⟨marked.isDemandFetch stays noFill moves, fun enabled => ?_⟩
  cases clearNoFill with
  | false => exact allocateMissBuffer_mayNotFill _ order _ noFill
  | true =>
    rw [cleared rfl] at enabled
    cases enabled

/-- A marked packet that opens an MSHR passes both checks. -/
theorem noFillPanic_marked (order : Nat) (marked : pkt.Marked) (stays : pkt.isEviction = false) :
    noFillPanic cfg pkt (Mshr.allocateMissBuffer cfg.blkSize pkt order
      (cfg.allocOnFill pkt.cmd) (!cfg.nofillEn)) = none := by
  unfold noFillPanic
  split
  next both =>
    obtain ⟨noFill, moves⟩ := Bool.and_eq_true_iff.mp both
    split
    next fills =>
      -- where no-fill is enabled, the flag is not cleared
      obtain ⟨enabled, fills⟩ := Bool.and_eq_true_iff.mp fills
      rw [enabled, Bool.not_true, allocateMissBuffer_mayNotFill _ order _ noFill] at fills
      cases fills
    next =>
      rw [marked.isDemandFetch stays noFill moves]
      rfl
  next => rfl

/-! ### What a cache hands on -/

theorem marked_rule : WriteRule cfg Packet.Marked where
  evicted blk _ :=
    ⟨(absurd · Bool.false_ne_true), fun _ => .inr (evictionPacket_isEviction cfg blk)⟩
  cleaned _ _ := ⟨(absurd · Bool.false_ne_true), (absurd · Bool.false_ne_true)⟩
  marked _ _ _ marked := ⟨marked.request, marked.packet⟩

/-- The requests that wait in a cache, and the packets that leave it through the write
buffer, are marked. -/
structure AllMarked (cache : Cache R) : Prop where
  lined : ∀ entry ∈ cache.mshrs, entry.mshr.Lined
  targets : ∀ entry ∈ cache.mshrs, entry.mshr.Asks Packet.Marked
  writes : cache.Writes Packet.Marked

theorem empty_allMarked (repl : R) : (Cache.empty repl).AllMarked := by
  constructor <;> intro entry mem <;> cases mem

/-- If the event brings a request, it is marked. -/
def BringsMarked (e : CacheEvent) : Prop :=
  ∀ pkt tick above, e = .recvTimingReq pkt tick above → pkt.Marked

/-- The miss packet is forwarded, or made from the request of the first target. -/
theorem missPacket_marked {mshr : Mshr} {isForward : Bool} (lined : mshr.Lined)
    (asks : mshr.Asks Packet.Marked)
    (made : cache.missPacket rp cfg mshr = some (pkt, isForward)) : pkt.Marked := by
  obtain ⟨front, first, made⟩ := Option.map_eq_some_iff.mp made
  have request : front.source ≠ .fromSnoop := by
    intro snoop
    apply lined.front
    rw [List.head?_map, first, Option.map_some, snoop]
  have marked := asks front (List.mem_append_left _ (List.mem_of_mem_head? first)) request
  dsimp only at made
  split at made
  next create =>
    cases made
    unfold createMissPacket at create
    split at create
    · cases create
    · cases create
      exact ⟨marked.request, fun noFill => .inl (marked.request noFill)⟩
  next =>
    cases made
    exact ⟨marked.request, marked.packet⟩

theorem AllMarked.handled (marked : cache.AllMarked) (e : CacheEvent) (sent : Sent)
    (brings : BringsMarked e) (handled : cache.handle rp cfg e = .ok (after, sent)) :
    after.AllMarked where
  lined entry mem :=
    (Limited.handle_entries marked.lined handled entry mem).1
  writes := by
    refine marked.writes.handled (marked_rule cfg) e sent ?_ handled
    intro pkt tick above event _
    exact brings pkt tick above event
  targets := by
    intro entry mem
    have targets := marked.targets
    cases (handle_mshrs handled).entries entry mem with
    | untouched _ _ waits => exact targets entry waits
    | missed req tick above _ _ carries =>
      -- a software prefetch goes on in a packet of its own
      have request := brings req tick above rfl
      refine Mshr.allocateMissBuffer_asks _ _ _ _ ?_
      rcases carries with rfl | rfl
      · exact request
      · exact Packet.marked_ofRequest _ _ _ request.request
    | fetched =>
      -- the request of a hardware prefetch carries neither mark
      refine Mshr.allocateMissBuffer_asks _ _ _ _ (Packet.marked_ofRequest _ _ _ ?_)
      intro noFill
      cases noFill
    | coalesced req tick above old _ waits _ added =>
      exact (targets old waits).added Packet.Marked.replaceUpgrade req _ _
        (brings req tick above rfl) added
    | sent _ _ old _ waits =>
      exact (targets old waits).of_lists rfl rfl
    | granted _ old waits =>
      exact (targets old waits).of_lists (Mshr.updateMayNotFill_lists _ _) rfl
    | retired _ _ _ old _ _ _ _ _ _ waits promotes extracts promoted =>
      -- what a response leaves behind waited before
      exact ((targets old waits).retired promotes extracts promoted).of_lists rfl rfl
    | squashed old _ waits _ popped => exact (targets old waits).popped popped
    | snooped pkt _ old result waits _ snoop =>
      -- nothing is asked of the copy of a snoop
      exact (targets old waits).snooped Packet.Marked.replaceUpgrade pkt _ result snoop
    | pended _ old waits => exact (targets old waits).of_lists rfl rfl

variable {above : Packet → Bool}

theorem recvTimingReq_down
    (ret : cache.recvTimingReq rp cfg above pkt tick = .ok (after, sent)) : sent.down = [] := by
  obtain ⟨_, _, ret⟩ := bind_ok_iff.mp ret
  dsimp only at ret
  split at ret
  · cases ret
    rfl
  · obtain ⟨_, outcome⟩ := handleTimingReqMiss_cases ret
    cases outcome <;> rfl

theorem issuePrefetch_down (cache : Cache R) (line : LineKey) :
    (cache.issuePrefetch rp cfg line).2.down = [] := by
  unfold issuePrefetch
  dsimp only
  split
  · split <;> rfl
  · split <;> rfl

theorem AllMarked.sends (marked : cache.AllMarked) (e : CacheEvent) (sent : Sent)
    (handled : cache.handle rp cfg e = .ok (after, sent)) : ∀ pkt ∈ sent.down, pkt.Marked := by
  intro pkt leaves
  cases e with
  | recvTimingReq =>
    rw [recvTimingReq_down rp cfg handled] at leaves
    cases leaves
  -- only the two queues send down, and what is in them is marked
  | sendMSHRQueuePacket =>
    obtain ⟨entry, _, _, _, found, _, made, rfl, _⟩ := sendMSHRQueuePacket_cases handled
    obtain rfl := List.mem_singleton.mp leaves
    have waits := (findId_mem found).1
    exact missPacket_marked rp cfg (marked.lined entry waits) (marked.targets entry waits) made
  | sendWriteQueuePacket =>
    obtain ⟨_, taken, handled⟩ := bind_ok_iff.mp handled
    cases handled
    obtain rfl := List.mem_singleton.mp leaves
    exact marked.writes pkt (List.mem_of_getElem? (orFail_ok_iff.mp taken))
  | issuePrefetch line =>
    obtain rfl : _ = sent := congrArg Prod.snd (Except.ok.inj handled)
    rw [issuePrefetch_down rp cfg cache line] at leaves
    cases leaves
  | setDownstreamPending =>
    cases handled
    cases leaves
  | _ =>
    obtain ⟨_, _, same⟩ := map_ok_iff.mp handled
    cases same
    cases leaves

/-! ### The MSHR a request opens -/

/-- The step opened the MSHR. -/
structure Opened (before after : Cache R) (entry : MshrEntry) : Prop where
  present : entry ∈ after.mshrs
  fresh : ∀ old ∈ before.mshrs, old.id ≠ entry.id

/-- An eviction goes through the write buffer, or is dropped. -/
theorem handleTimingReqMiss_eviction {place : Option Place} (evicts : pkt.isEviction = true)
    (ret : cache.handleTimingReqMiss cfg pkt place = .ok (after, sent)) :
    after.mshrs = cache.mshrs := by
  have kind : pkt.isRead = false ∧ pkt.isSWPrefetch = false ∧
      (pkt.isWriteback = true ∨ pkt.cmd = .cleanEvict) := by
    unfold Packet.isWriteback Packet.isRead Packet.isSWPrefetch Packet.hasData
    unfold Packet.isEviction at *
    revert evicts
    cases pkt.cmd <;> decide
  obtain ⟨unread, hard, kind⟩ := kind
  unfold handleTimingReqMiss at ret
  dsimp only at ret
  rw [unread, hard, if_neg Bool.false_ne_true, if_neg Bool.false_ne_true] at ret
  split at ret
  · split at ret <;> cases ret
    rfl
  · -- the write allocator is no part of the queue
    have counted : ∀ start : Cache R, start = (if (cfg.hasWriteAllocator && pkt.isWrite) = true
        then { cache with
          writeAllocator := cache.writeAllocator.updateMode cfg pkt.addr pkt.size }
        else cache) → start.mshrs = cache.mshrs := by
      rintro start rfl
      split <;> rfl
    generalize (if (cfg.hasWriteAllocator && pkt.isWrite) = true then _ else cache) = start
      at ret counted
    split at ret
    · unfold coalesce at ret
      split at ret
      · cases ret
      next plain =>
        rw [if_pos (kind.resolve_left plain)] at ret
        cases ret
        exact counted _ rfl
    · unfold openMiss at ret
      rw [evicts, Bool.true_or, if_pos rfl] at ret
      cases ret
      exact counted start rfl

theorem recvTimingReq_eviction (evicts : pkt.isEviction = true)
    (ret : cache.recvTimingReq rp cfg above pkt tick = .ok (after, sent)) :
    after.mshrs = cache.mshrs := by
  obtain ⟨_, accessed, ret⟩ := bind_ok_iff.mp ret
  have kept := access_queue accessed
  dsimp only at ret
  split at ret
  · cases ret
    exact kept.mshrs
  next missed =>
    have same := access_missed (by simpa using missed) accessed
    rw [same] at ret
    exact (handleTimingReqMiss_eviction cfg evicts ret).trans kept.mshrs

/-- An MSHR that is opened for a marked request, or for a prefetch, honours NO_FILL. -/
theorem opened_honours (brings : BringsMarked e)
    (handled : cache.handle rp cfg e = .ok (after, sent)) {entry : MshrEntry}
    (opened : Opened cache after entry) : entry.mshr.HonoursNoFill cfg := by
  have change := handle_mshrs handled
  cases change.entries entry opened.present with
  | missed req tick above pkt _ carries cleared =>
    have request := brings req tick above rfl
    have same : pkt.isEviction = req.isEviction := by
      rcases carries with rfl | rfl <;> rfl
    cases evicts : req.isEviction with
    | true =>
      -- an eviction adds no MSHR
      have present := opened.present
      rw [recvTimingReq_eviction rp cfg evicts handled] at present
      exact absurd rfl (opened.fresh _ present)
    | false =>
      refine allocateMissBuffer_honours cfg _ ?_ (same.trans evicts) cleared
      rcases carries with rfl | rfl
      · exact request
      · exact Packet.marked_ofRequest _ _ _ request.request
  | fetched =>
    intro _ mem noFill
    rw [allocateMissBuffer_waiting mem] at noFill
    cases noFill
  | untouched _ _ waits => exact absurd rfl (opened.fresh _ waits)
  | coalesced _ _ _ old _ waits => exact absurd rfl (opened.fresh old waits)
  | sent _ _ old _ waits => exact absurd rfl (opened.fresh old waits)
  | granted _ old waits => exact absurd rfl (opened.fresh old waits)
  | retired _ _ _ old _ _ _ _ _ _ waits => exact absurd rfl (opened.fresh old waits)
  | squashed old _ waits => exact absurd rfl (opened.fresh old waits)
  | snooped _ _ old _ waits => exact absurd rfl (opened.fresh old waits)
  | pended _ old waits => exact absurd rfl (opened.fresh old waits)

/-! ### The panics -/

/-- The event ends in neither panic on a no-fill miss, and an MSHR it opens honours
NO_FILL. -/
structure NoFillSafe (cache : Cache R) (e : CacheEvent) : Prop where
  fills : cache.handle rp cfg e ≠ .error .noFillOpensFill
  demands : cache.handle rp cfg e ≠ .error .noFillWithoutDemand
  honours : ∀ after sent entry, cache.handle rp cfg e = .ok (after, sent) →
    Opened cache after entry → entry.mshr.HonoursNoFill cfg

/-- A marked request meets neither panic. -/
theorem not_panics_marked {why : Failure} (brings : BringsMarked e) (panics : Panics cfg e why) :
    why = .tempBlockWithoutNofill ∨ why = .noFillLowerAtLastLevel := by
  cases panics with
  | fill => exact .inl rfl
  | lower => exact .inr rfl
  | miss pkt tick above req order _ carries stays panics =>
    have request := brings pkt tick above rfl
    have marked : req.Marked := by
      rcases carries with rfl | rfl
      · exact request
      · exact Packet.marked_ofRequest _ _ _ request.request
    rw [noFillPanic_marked cfg order marked stays.1] at panics
    cases panics

theorem noFillSafe_of_marked (cache : Cache R) (brings : BringsMarked e) :
    NoFillSafe rp cfg cache e := by
  have stops (why : Failure) (failed : cache.handle rp cfg e = .error why) :
      why = .assertion ∨ why = .tempBlockWithoutNofill ∨ why = .noFillLowerAtLastLevel :=
    (handle_stops cache e why failed).imp_right
      (not_panics_marked cfg brings)
  refine ⟨fun failed => ?_, fun failed => ?_, ?_⟩
  · rcases stops _ failed with why | why | why <;> cases why
  · rcases stops _ failed with why | why | why <;> cases why
  · intro _ _ _ handled opened
    exact opened_honours rp cfg brings handled opened

end Cache

/-! ### Two levels -/

/-- A cache of the system: the first level of a core, or the second level below. -/
inductive CacheSite (n : Nat) where
  | l1 (core : Fin n)
  | l2
deriving Repr, DecidableEq

/-- What is fixed of the system. -/
structure HierarchyParams (n : Nat) (R : Type) where
  policy : CacheSite n → ReplacementPolicy R
  params : CacheSite n → CacheParams
  mode : Fin n → Cpu.DefenceMode
  cacheLineSize : Nat

/-- The caches, and the requests on their way from a first level to the second. -/
structure Hierarchy (n : Nat) (R : Type) where
  cache : CacheSite n → Cache R
  wire : List Packet := []

inductive HierarchyEvent (n : Nat) where
  /-- The `k`th packet of a memory instruction reaches the first level. -/
  | lsq (core : Fin n) (access : Cpu.MemAccess) (tlb : Cpu.LsqRequest → Option Cpu.Translation)
    (k tick : Nat) (above : Packet → Bool)
  /-- A request of another unit of the core. No unit but the queue sets NO_FILL. -/
  | other (core : Fin n) (req : Request) (cmd : MemCmd) (addr : Addr) (size tick : Nat)
    (above : Packet → Bool)
  /-- The `k`th request on its way reaches the second level. -/
  | deliver (k tick : Nat) (above : Packet → Bool)
  /-- Anything but a request: sending, responses, snoops, prefetches, PfAcks. -/
  | work (site : CacheSite n) (e : CacheEvent)

namespace Hierarchy

variable {n : Nat} (system : HierarchyParams n R)

/-- The cache the event is for, and what it handles. -/
def call (s : Hierarchy n R) : HierarchyEvent n → Option (CacheSite n × CacheEvent)
  | .lsq core access tlb k tick above => do
    let packets ← access.packets (system.mode core) system.cacheLineSize tlb
    let pkt ← packets[k]?
    return (.l1 core, .recvTimingReq pkt tick above)
  | .other core req cmd addr size tick above =>
    if req.flags.noFill then none
    else some (.l1 core, .recvTimingReq (.ofRequest req cmd addr size) tick above)
  | .deliver k tick above => s.wire[k]?.map fun pkt => (.l2, .recvTimingReq pkt tick above)
  | .work _ (.recvTimingReq _ _ _) => none
  | .work site e => some (site, e)

/-- The requests that stay on the wire. -/
def left (s : Hierarchy n R) : HierarchyEvent n → List Packet
  | .deliver k _ _ => s.wire.eraseIdx k
  | _ => s.wire

/-- What a cache sends to the second level. -/
def sends (site : CacheSite n) (sent : Cache.Sent) : List Packet :=
  match site with
  | .l1 _ => sent.down
  | .l2 => []

def step (s : Hierarchy n R) (e : HierarchyEvent n) : Option (Hierarchy n R) := do
  let (site, call) ← s.call system e
  let (after, sent) ←
    ((s.cache site).handle (system.policy site) (system.params site) call).toOption
  return { cache := update s.cache site after, wire := s.left e ++ sends site sent }

/-- The system before its first request. -/
def empty (repl : CacheSite n → R) : Hierarchy n R where
  cache := fun site => .empty (repl site)

/-- Every packet in the caches and between them is marked. -/
structure Marked (s : Hierarchy n R) : Prop where
  caches : ∀ site, (s.cache site).AllMarked
  wire : ∀ pkt ∈ s.wire, pkt.Marked

variable {s : Hierarchy n R}

/-- The queue, the other units and the first levels bring marked requests. -/
theorem Marked.call (marked : s.Marked) (e : HierarchyEvent n) (site : CacheSite n)
    (call : CacheEvent) (called : s.call system e = some (site, call)) :
    Cache.BringsMarked call := by
  intro pkt _ _ event
  subst event
  cases e with
  | lsq _ access tlb =>
    obtain ⟨packets, built, called⟩ := Option.bind_eq_some_iff.mp called
    obtain ⟨pkt, picked, called⟩ := Option.bind_eq_some_iff.mp called
    cases called
    -- DEMAND_FETCH is set whatever the mode asks for
    have demand := access.packets_demand built pkt (List.mem_of_getElem? picked)
    exact ⟨fun _ => demand, fun _ => .inl demand⟩
  | other =>
    simp only [Hierarchy.call] at called
    split at called
    · cases called
    next plain =>
      cases called
      exact Packet.marked_ofRequest _ _ _ fun noFill => absurd noFill plain
  | deliver =>
    obtain ⟨pkt, picked, same⟩ := Option.map_eq_some_iff.mp called
    cases same
    exact marked.wire pkt (List.mem_of_getElem? picked)
  | work _ e => cases e <;> cases called

theorem Marked.step {t : Hierarchy n R} (marked : s.Marked) (e : HierarchyEvent n)
    (taken : s.step system e = some t) : t.Marked := by
  obtain ⟨⟨site, call⟩, called, taken⟩ := Option.bind_eq_some_iff.mp taken
  obtain ⟨⟨after, sent⟩, handled, taken⟩ := Option.bind_eq_some_iff.mp taken
  rw [toOption_some_iff] at handled
  cases taken
  have brings := marked.call system e site call called
  constructor
  · intro other
    show (update s.cache site after other).AllMarked
    -- one cache handles the call, and the others stand still
    by_cases here : other = site
    · subst here
      rw [update_self]
      exact (marked.caches other).handled _ _ call sent brings handled
    · rw [update_of_ne here]
      exact marked.caches other
  · intro pkt mem
    rcases List.mem_append.mp mem with stays | new
    · refine marked.wire pkt ?_
      cases e with
      | deliver => exact List.mem_of_mem_eraseIdx stays
      | _ => exact stays
    · -- the wire takes what the first level sends; the second level sends to the memory
      cases site with
      | l1 core => exact (marked.caches _).sends _ _ call sent handled pkt new
      | l2 => cases new

theorem empty_marked (repl : CacheSite n → R) : (empty repl).Marked where
  caches site := Cache.empty_allMarked (repl site)
  wire pkt mem := by cases mem

/-- In every run of the system, in every mode of every core, no cache panics on a
no-fill miss, and a no-fill read or write that opens an MSHR is a demand fetch, whose
MSHR may not fill where no-fill is enabled. -/
theorem noFill_misses_demand (repl : CacheSite n → R) (events : List (HierarchyEvent n)) :
    Runs.Along (step system) (fun s e => ∀ site call, s.call system e = some (site, call) →
        Cache.NoFillSafe (system.policy site) (system.params site) (s.cache site) call)
      (empty repl) events := by
  have keeps (s : Hierarchy n R) (e : HierarchyEvent n) (t : Hierarchy n R) (marked : s.Marked)
      (_ : True) (taken : s.step system e = some t) : t.Marked := marked.step system e taken
  refine Runs.along_of_invariant keeps ?_ _ events (empty_marked repl) (Runs.along_trivial _ _)
  intro _ e marked _ site call called
  exact Cache.noFillSafe_of_marked _ _ _ (marked.call system e site call called)

end Hierarchy

end RasCache.Mem
