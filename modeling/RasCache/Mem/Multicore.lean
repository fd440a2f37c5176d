import Mathlib.Data.List.FinRange
import RasCache.Cpu.Lsq
import RasCache.Mem.Frame
import RasCache.Mem.SnoopFilter

/-!
# Cores behind a crossbar

Cores with private first-level caches, a crossbar with a snoop filter
(`CoherentXBar`, `mem/coherent_xbar.cc`) and an environment below it. A snoop
that a cache does not hold back is passed on to its core, where an invalidation
scans the load queues. The theorems of this file say exactly when a write of one
core is heard by the loads of another one.
-/
namespace RasCache.Mem

open Cpu Outcomes Function

variable {R : Type}

/-! ### Snoops that are passed on to the core -/

/-- The MSHR keeps the snoop for later: an invalidation is due already, or the
cache answers once it has the line. -/
def Mshr.defersSnoop (mshr : Mshr) (pkt : Packet) : Bool :=
  mshr.inService && !(pkt.expressSnoop && mshr.downstreamPending) &&
    (mshr.postInvalidate || (mshr.targets.list.head?.any fun t => t.pkt.req.isCacheInvalidate) ||
      mshr.willRespond pkt)

theorem Mshr.handleSnoop_willRespond {mshr : Mshr} {pkt : Packet} {order : Nat}
    {result : SnoopResult} (handled : mshr.handleSnoop pkt order = some result) :
    result.willRespond = mshr.defersSnoop pkt := by
  cases handleSnoop_cases handled with
  | replaced early =>
    rw [defersSnoop, ← comesLate, early, Bool.false_and]
  | ignored early =>
    rw [defersSnoop, ← comesLate, early, Bool.false_and]
  | due late _ _ shape invalidates =>
    rw [defersSnoop, ← comesLate, late, shape, List.head?_cons, Option.any_some, invalidates]
    rfl
  | saved late _ _ shape keeps =>
    rw [defersSnoop, ← comesLate, late, shape, List.head?_cons, Option.any_some, keeps,
      Bool.true_and, Bool.false_or]
    -- the upgrades that are replaced first have no say
    unfold snoopInService willRespond
    rw [withoutUpgrades_pendingModified]

/-- No invalidation is among the packets that only look for a copy above, and none
passes the crossbar without a snoop. -/
theorem Packet.invalidation_snoops (pkt : Packet) (invalidates : pkt.isInvalidate = true) :
    pkt.mustCheckAbove = false ∧ pkt.isEviction = false ∧ pkt.cmd ≠ .writeClean := by
  have all : ∀ cmd : MemCmd, cmd.has .isInvalidate = true →
      (decide (cmd = .hardPFReq) || cmd.has .isEviction) = false ∧ cmd.has .isEviction = false ∧
        cmd ≠ .writeClean := by
    intro cmd
    cases cmd <;> decide
  exact all pkt.cmd invalidates

namespace Cache

variable (rp : ReplacementPolicy R) (cfg : CacheParams)

/-- `recvTimingSnoopReq` gets as far as `handleSnoop`, which starts by sending
the snoop up. -/
def snoopsAbove (cache : Cache R) (pkt : Packet) : Bool :=
  let key := pkt.line cfg.blkSize
  match cache.findMshr key with
  | some e =>
    !pkt.mustCheckAbove && (e.mshr.handleSnoop pkt cache.order).any fun result =>
      !result.willRespond
  | none => !(pkt.isEviction && (cache.findWrite cfg key).isSome)

/-- The saved snoops that the response of the MSHR replays, each through
`handleSnoop`. -/
def replayedSnoops (mshr : Mshr) : List Packet :=
  (mshr.targets.list.filter fun t => decide (t.source = .fromSnoop)).map Target.pkt

end Cache

/-! ### State -/

/-- A core and its cache. `arriving` are responses on their way from the crossbar
to the cache and `resps` those on their way to the core. -/
structure Core (R : Type) where
  l1 : Cache R
  arriving : List Packet := []
  resps : List Packet := []
  threads : List (List Load) := []

structure Multicore (n : Nat) (R : Type) where
  core : Fin n → Core R
  filter : SnoopFilter n := {}

namespace Core

variable (rp : ReplacementPolicy R) (cfg : CacheParams)

/-- `LSQ::recvTimingSnoopReq`, with TSO: only invalidations are looked at. -/
def hear (core : Core R) (pkt : Packet) : Core R :=
  if pkt.isInvalidate then
    { core with threads := core.threads.map (checkSnoop true cfg.blkSize pkt) }
  else core

/-- A snoop reaches the cache of the core. -/
def snoop (core : Core R) (pkt : Packet) : Except Failure (Core R) := do
  let l1 ← core.l1.recvTimingSnoopReq rp cfg (fun _ => false) pkt
  let after := { core with l1 }
  .ok (if core.l1.snoopsAbove cfg pkt then after.hear cfg pkt else after)

def setThread (core : Core R) (t : Nat) (f : List Load → List Load) : Core R :=
  { core with threads := core.threads.modify t f }

end Core

/-- What can happen. `accepted` says whether the level below takes a packet from
the crossbar, or it has to be retried. -/
inductive MulticoreEvent (n : Nat) where
  | request (i : Fin n) (pkt : Packet) (tick : Nat)
  | sendMiss (i : Fin n) (id : Nat) (pendingModifiedResp accepted : Bool)
  | sendWrite (i : Fin n) (entry : Nat) (accepted : Bool)
  /-- A response from below passes the crossbar. -/
  | passResp (i : Fin n) (pkt : Packet)
  /-- A cache answers the request of another one. -/
  | passSnoopResp (src dst : Fin n) (pkt : Packet)
  /-- A cache answers a snoop from below. -/
  | passSnoopDown (pkt : Packet)
  | snoopBelow (pkt : Packet)
  | respond (i : Fin n) (arrived id tick : Nat)
  | internal (i : Fin n) (e : CacheEvent)
  | insertLoad (i : Fin n) (thread : Nat) (ld : Load)
  | loadData (i : Fin n) (thread position resp : Nat)
  | commitLoad (i : Fin n) (thread : Nat)
  | squashLoads (i : Fin n) (thread position : Nat)

namespace Multicore

variable {n : Nat} (rp : ReplacementPolicy R) (cfg : CacheParams)

def setCore (s : Multicore n R) (i : Fin n) (core : Core R) : Multicore n R :=
  { s with core := update s.core i core }

/-- `forwardTiming`. -/
def forwardTiming (pkt : Packet) : (Fin n → Core R) → List (Fin n) →
    Except Failure (Fin n → Core R)
  | core, [] => .ok core
  | core, port :: rest => do
    let snooped ← (core port).snoop rp cfg pkt
    forwardTiming pkt (update core port snooped) rest

/-- `maskToPortList`. -/
def portList (ports : Finset (Fin n)) : List (Fin n) :=
  (List.finRange n).filter fun port => decide (port ∈ ports)

/-- The snoops a request causes: evictions cause none. -/
def snoopDests (pkt : Packet) (core : Fin n → Core R) (dests : Finset (Fin n)) :
    Except Failure (Fin n → Core R) :=
  if pkt.isEviction then .ok core else forwardTiming rp cfg pkt core (portList dests)

/-- `CoherentXBar::recvTimingReq`, up to what goes on below. -/
def recvTimingReq (s : Multicore n R) (src : Fin n) (pkt : Packet) (accepted : Bool) :
    Except Failure (Multicore n R) :=
  if pkt.cmd = .writeClean then .ok s
  else do
    let (filter, dests) ← s.filter.lookupRequest cfg.blkSize pkt src
    let core ← snoopDests rp cfg pkt s.core dests
    .ok { core, filter := s.filter.finishRequest cfg.blkSize filter pkt (!accepted) }

/-- The events of a cache that involve neither its core nor the crossbar. -/
def isInternal : CacheEvent → Bool
  | .issuePrefetch _ | .squashPrefetch _ | .setDownstreamPending _ _ => true
  | _ => false

/-- An event that is not possible now counts as a failed assertion. -/
def handle (s : Multicore n R) : MulticoreEvent n → Except Failure (Multicore n R)
  | .request i pkt tick => do
    let (l1, out) ← (s.core i).l1.recvTimingReq rp cfg (fun _ => false) pkt tick
    .ok (s.setCore i { s.core i with l1, resps := (s.core i).resps ++ out.up })
  | .sendMiss i id pendingModifiedResp accepted => do
    let (l1, out) ← (s.core i).l1.sendMSHRQueuePacket rp cfg (fun _ => false) id
      pendingModifiedResp
    let pkt ← Cache.orFail out.down.head?
    let t ← s.recvTimingReq rp cfg i pkt accepted
    .ok (if accepted then t.setCore i { t.core i with l1 } else t)
  | .sendWrite i entry accepted => do
    let (l1, out) ← (s.core i).l1.sendWriteQueuePacket entry
    let pkt ← Cache.orFail out.down.head?
    let t ← s.recvTimingReq rp cfg i pkt accepted
    .ok (if accepted then t.setCore i { t.core i with l1 } else t)
  | .passResp i pkt => do
    let filter ← s.filter.updateResponse cfg.blkSize pkt i
    .ok { s.setCore i { s.core i with arriving := (s.core i).arriving ++ [pkt] } with filter }
  | .passSnoopResp src dst pkt => do
    let filter ← s.filter.updateSnoopResponse cfg.blkSize pkt src dst
    .ok { s.setCore dst { s.core dst with arriving := (s.core dst).arriving ++ [pkt] } with filter }
  | .passSnoopDown pkt => .ok { s with filter := s.filter.updateSnoopForward cfg.blkSize pkt }
  | .snoopBelow pkt => do
    let (filter, dests) := s.filter.lookupSnoop cfg.blkSize pkt
    let core ← forwardTiming rp cfg pkt s.core (portList dests)
    .ok { core, filter }
  | .respond i arrived id tick => do
    let pkt ← Cache.orFail (s.core i).arriving[arrived]?
    let e ← Cache.orFail ((s.core i).l1.findId id)
    if e.mshr.key = pkt.line cfg.blkSize then
      let (l1, up) ← (s.core i).l1.recvTimingResp rp cfg (fun _ => false) id pkt tick
      let core := { s.core i with
        l1, arriving := (s.core i).arriving.eraseIdx arrived, resps := (s.core i).resps ++ up }
      .ok (s.setCore i ((Cache.replayedSnoops e.mshr).foldl (Core.hear cfg) core))
    else .error .assertion
  | .internal i e =>
    if isInternal e then do
      let (l1, _) ← (s.core i).l1.handle rp cfg e
      .ok (s.setCore i { s.core i with l1 })
    else .error .assertion
  | .insertLoad i thread ld =>
    if ld.pending = ld.paddrs && !ld.reExec then
      .ok (s.setCore i ((s.core i).setThread thread fun queue => queue ++ [ld]))
    else .error .assertion
  | .loadData i thread position resp => do
    let pkt ← Cache.orFail (s.core i).resps[resp]?
    .ok (s.setCore i { (s.core i).setThread thread fun queue =>
        queue.modify position fun ld => { ld with pending := ld.pending.erase pkt.addr } with
      resps := (s.core i).resps.eraseIdx resp })
  | .commitLoad i thread => .ok (s.setCore i ((s.core i).setThread thread List.tail))
  | .squashLoads i thread position =>
    .ok (s.setCore i ((s.core i).setThread thread fun queue => queue.take position))

def step (s : Multicore n R) (e : MulticoreEvent n) : Option (Multicore n R) :=
  (s.handle rp cfg e).toOption

/-! ### Writes and the loads they concern -/

/-- The event has a write of a core ordered at the crossbar: a request that takes
every other copy of the line away. -/
def writes (s : Multicore n R) : MulticoreEvent n → Option (Fin n × Packet)
  | .sendMiss i id pendingModifiedResp true =>
    match (s.core i).l1.sendMSHRQueuePacket rp cfg (fun _ => false) id
        pendingModifiedResp with
    | .ok (_, out) => (out.down.head?.filter Packet.isInvalidate).map fun pkt => (i, pkt)
    | .error _ => none
  | _ => none

def loadAt (s : Multicore n R) (i : Fin n) (thread k : Nat) : Option Load :=
  (s.core i).threads[thread]?.bind fun queue => queue[k]?

/-- A load that has its data from the line of the packet, is cacheable and not
strictly ordered, and has an older load in front of it. -/
structure Exposed (s : Multicore n R) (pkt : Packet) (i : Fin n) (thread k : Nat) (ld : Load) :
    Prop where
  there : s.loadAt i thread k = some ld
  younger : 0 < k
  hasData : ld.hasData = true
  cacheable : ld.uncacheable = false
  considered : ld.skipped = false
  hit : ld.isCacheBlockHit cfg.blkSize (Packet.blkAlign pkt.addr cfg.blkSize) = true

/-- Every load that a write of another core concerns is marked for re-execution
when the write passes the crossbar. -/
def Squashes (s : Multicore n R) (e : MulticoreEvent n) : Prop :=
  ∀ after, s.step rp cfg e = some after → ∀ writer pkt,
    s.writes rp cfg e = some (writer, pkt) → ∀ i, i ≠ writer → ∀ thread k ld,
      s.Exposed cfg pkt i thread k ld →
        ∃ marked, after.loadAt i thread k = some marked ∧ marked.reExec = true

/-- The snoop filter lists the core of each such load, and no MSHR of its cache
keeps the snoop back. -/
def Heard (s : Multicore n R) (e : MulticoreEvent n) : Prop :=
  (s.step rp cfg e).isSome = true → ∀ writer pkt,
    s.writes rp cfg e = some (writer, pkt) → ∀ i, i ≠ writer → ∀ thread k ld,
      s.Exposed cfg pkt i thread k ld → ld.reExec = false →
        i ∈ s.filter.listed (pkt.snoopLine cfg.blkSize) ∧
          ∀ entry, (s.core i).l1.findMshr (pkt.line cfg.blkSize) = some entry →
            entry.mshr.defersSnoop pkt = false

/-! ### One snoop -/

variable {pkt : Packet} {s : Multicore n R} {i : Fin n}

variable {ports : List (Fin n)} {core : Core R}

/-- An invalidation gets to the core unless an MSHR keeps it back. -/
theorem snoopsAbove_iff {after : Core R} (invalidates : pkt.isInvalidate = true)
    (snooped : core.snoop rp cfg pkt = .ok after) : core.l1.snoopsAbove cfg pkt = true ↔
      ∀ entry, core.l1.findMshr (pkt.line cfg.blkSize) = some entry →
        entry.mshr.defersSnoop pkt = false := by
  obtain ⟨plain, stays, _⟩ := pkt.invalidation_snoops invalidates
  obtain ⟨_, received, _⟩ := bind_ok_iff.mp snooped
  unfold Cache.recvTimingSnoopReq at received
  unfold Cache.snoopsAbove
  dsimp only at received ⊢
  cases found : core.l1.findMshr (pkt.line cfg.blkSize) with
  | none => simp [stays]
  | some =>
    simp only [found, plain, Bool.false_eq_true, if_false] at received
    obtain ⟨_, handled, _⟩ := bind_ok_iff.mp received
    rw [Cache.orFail_ok_iff] at handled
    have defers := Mshr.handleSnoop_willRespond handled
    simp [plain, handled, defers]

theorem snoop_threads {after : Core R} (invalidates : pkt.isInvalidate = true)
    (snooped : core.snoop rp cfg pkt = .ok after) :
    after.threads = if core.l1.snoopsAbove cfg pkt then
      core.threads.map (checkSnoop true cfg.blkSize pkt) else core.threads := by
  obtain ⟨_, _, same⟩ := bind_ok_iff.mp snooped
  cases same
  split <;> simp [Core.hear, invalidates]

/-! ### The snoops of one request -/

theorem forwardTiming_other (core : Fin n → Core R) {after : Fin n → Core R} (i : Fin n)
    (absent : i ∉ ports) (forwarded : forwardTiming rp cfg pkt core ports = .ok after) :
    after i = core i := by
  induction ports generalizing core with
  | nil =>
    cases forwarded
    rfl
  | cons _ _ ih =>
    obtain ⟨_, _, forwarded⟩ := bind_ok_iff.mp forwarded
    rw [List.mem_cons, not_or] at absent
    rw [ih _ absent.2 forwarded, update_of_ne absent.1]

theorem forwardTiming_snooped (core : Fin n → Core R) {after : Fin n → Core R} (i : Fin n)
    (mem : i ∈ ports) (once : ports.Nodup)
    (forwarded : forwardTiming rp cfg pkt core ports = .ok after) :
    (core i).snoop rp cfg pkt = .ok (after i) := by
  induction ports generalizing core with
  | nil => cases mem
  | cons port _ ih =>
    obtain ⟨_, first, forwarded⟩ := bind_ok_iff.mp forwarded
    obtain ⟨absent, once⟩ := List.nodup_cons.mp once
    by_cases same : i = port
    · subst same
      rw [forwardTiming_other rp cfg _ i absent forwarded, update_self]
      exact first
    · have mem := (List.mem_cons.mp mem).resolve_left same
      have later := ih _ mem once forwarded
      rwa [update_of_ne same] at later

theorem portList_mem (ports : Finset (Fin n)) (i : Fin n) : i ∈ portList ports ↔ i ∈ ports := by
  simp [portList]

theorem portList_nodup (ports : Finset (Fin n)) : (portList ports).Nodup :=
  (List.nodup_finRange n).filter _

/-- An invalidation at the crossbar snoops the ports that are listed for the line
and leaves the other cores alone. -/
theorem recvTimingReq_core {t : Multicore n R} {src : Fin n} {accepted : Bool}
    (invalidates : pkt.isInvalidate = true) (other : i ≠ src)
    (received : s.recvTimingReq rp cfg src pkt accepted = .ok t) :
    (i ∈ s.filter.listed (pkt.snoopLine cfg.blkSize) →
      (s.core i).snoop rp cfg pkt = .ok (t.core i)) ∧
    (i ∉ s.filter.listed (pkt.snoopLine cfg.blkSize) → t.core i = s.core i) := by
  obtain ⟨_, stays, snooped⟩ := pkt.invalidation_snoops invalidates
  unfold recvTimingReq at received
  simp only [snooped, if_false] at received
  obtain ⟨⟨_, _⟩, looked, received⟩ := bind_ok_iff.mp received
  obtain ⟨_, forwarded, received⟩ := bind_ok_iff.mp received
  cases received
  simp only [snoopDests, stays, Bool.false_eq_true, if_false] at forwarded
  -- the destinations are the ports that are listed, without the one that asks
  obtain rfl := SnoopFilter.lookupRequest_dests looked
  constructor
  · intro listed
    refine forwardTiming_snooped rp cfg s.core i ?_ (portList_nodup _) forwarded
    rw [portList_mem, Finset.mem_erase]
    exact ⟨other, listed⟩
  · intro unlisted
    refine forwardTiming_other rp cfg s.core i ?_ forwarded
    rw [portList_mem, Finset.mem_erase]
    exact fun both => unlisted both.2

variable {after : Multicore n R} {e : MulticoreEvent n} {writer : Fin n}
  (wrote : s.writes rp cfg e = some (writer, pkt))
  (taken : s.step rp cfg e = some after) (other : i ≠ writer)

include wrote taken other in
/-- The write behind an event, and what it does to the other cores. -/
theorem writes_core : pkt.isInvalidate = true ∧ (i ∈ s.filter.listed (pkt.snoopLine cfg.blkSize) →
      (s.core i).snoop rp cfg pkt = .ok (after.core i)) ∧
    (i ∉ s.filter.listed (pkt.snoopLine cfg.blkSize) → after.core i = s.core i) := by
  unfold writes at wrote
  split at wrote
  next =>
    split at wrote
    next l1 _ sent =>
      obtain ⟨first, kept, same⟩ := Option.map_eq_some_iff.mp wrote
      cases same
      obtain ⟨head, invalidates⟩ := Option.filter_eq_some_iff.mp kept
      -- the step sends the same packet the cache put first
      have taken := toOption_some_iff.mp taken
      obtain ⟨⟨_, _⟩, sent', taken⟩ := bind_ok_iff.mp taken
      obtain ⟨_, down, taken⟩ := bind_ok_iff.mp taken
      obtain ⟨t, received, taken⟩ := bind_ok_iff.mp taken
      cases taken
      rw [sent] at sent'
      cases sent'
      rw [Cache.orFail_ok_iff, head] at down
      cases down
      have same : (t.setCore writer { t.core writer with l1 }).core i = t.core i :=
        update_of_ne other _ _
      simp only [if_true, same]
      exact ⟨invalidates, recvTimingReq_core rp cfg invalidates other received⟩
    next => cases wrote
  next => cases wrote

include wrote taken other in
/-- The load of another core is marked by a write exactly when it was marked, or
its core hears of the write. -/
theorem exposed_marked_iff {thread k : Nat} {ld : Load}
    (exposed : s.Exposed cfg pkt i thread k ld) :
    (∃ marked, after.loadAt i thread k = some marked ∧ marked.reExec = true) ↔
      (ld.reExec = false → i ∈ s.filter.listed (pkt.snoopLine cfg.blkSize) ∧
        ∀ entry, (s.core i).l1.findMshr (pkt.line cfg.blkSize) = some entry →
          entry.mshr.defersSnoop pkt = false) := by
  obtain ⟨invalidates, snooped, untouched⟩ := writes_core rp cfg wrote taken other
  -- a core that does not hear of the write keeps its queues
  have kept (same : (after.core i).threads = (s.core i).threads) :
      (∃ marked, after.loadAt i thread k = some marked ∧ marked.reExec = true) ↔
        ld.reExec = true := by
    have there : after.loadAt i thread k = some ld := by
      rw [loadAt, same]
      exact exposed.there
    simp [there]
  by_cases listed : i ∈ s.filter.listed (pkt.snoopLine cfg.blkSize)
  · have heard := snoopsAbove_iff rp cfg invalidates (snooped listed)
    have threads := snoop_threads rp cfg invalidates (snooped listed)
    rw [← heard]
    by_cases above : (s.core i).l1.snoopsAbove cfg pkt = true
    · rw [above, if_pos rfl] at threads
      obtain ⟨_, held, there⟩ := Option.bind_eq_some_iff.mp exposed.there
      have marked : after.loadAt i thread k = some { ld with reExec := true } := by
        rw [loadAt, threads, List.getElem?_map, held]
        exact checkSnoop_marks there exposed.younger exposed.considered exposed.hit
      simp [marked, listed, above]
    · rw [if_neg above] at threads
      rw [kept threads]
      simp [listed, above]
  · rw [kept (congrArg Core.threads (untouched listed))]
    simp [listed]

theorem squashes_iff_heard (s : Multicore n R) (e : MulticoreEvent n) :
    s.Squashes rp cfg e ↔ s.Heard rp cfg e := by
  constructor
  · intro squashes possible writer pkt wrote i other thread k ld exposed
    obtain ⟨after, taken⟩ := Option.isSome_iff_exists.mp possible
    exact (exposed_marked_iff rp cfg wrote taken other
      exposed).mp (squashes after taken writer pkt wrote i other thread k ld exposed)
  · intro heard _ taken writer pkt wrote i other thread k ld exposed
    refine (exposed_marked_iff rp cfg wrote taken other exposed).mpr ?_
    exact heard (by rw [taken]; rfl) writer pkt wrote i other thread k ld exposed

/-- In every run the writes of one core mark the loads of the others exactly when
the snoop filter lists each load's core at each write, and no MSHR of that core's
cache keeps the snoop back. -/
theorem remote_writes_squash_iff (s : Multicore n R) (events : List (MulticoreEvent n)) :
    Runs.Along (step rp cfg) (Squashes rp cfg) s events ↔
      Runs.Along (step rp cfg) (Heard rp cfg) s events :=
  Runs.along_congr (squashes_iff_heard rp cfg) s events

/-! ### A load served through the temporary block -/

/-- Two cores with empty caches and one thread each. -/
def twoCores : Multicore 2 Unit where
  core := fun _ => { l1 := Cache.empty (), threads := [[]] }

/-- A speculative load behind an older one misses, gets its data through the
temporary block, and the eviction message of that block passes the crossbar. -/
def servedAndEvicted : List (MulticoreEvent 2) :=
  [.insertLoad 0 0 { paddrs := [64], pending := [64] },
   .insertLoad 0 0 { paddrs := [0], pending := [0] },
   .request 0 (.noFillLoad 0) 0,
   .sendMiss 0 0 false true,
   .passResp 0 { Packet.noFillRead with cmd := .readResp },
   .respond 0 0 0 1,
   .loadData 0 0 1 0,
   .sendWrite 0 0 true]

/-- Then the other core writes the line. -/
def remoteWrite : List (MulticoreEvent 2) :=
  [.request 1 (.ofRequest { flags := { demandFetch := true } } .writeReq 0 8) 2,
   .sendMiss 1 0 false true]

/-- The load keeps the old data: its core does not hear of the write. -/
theorem evictedLoad_misses_write :
    ¬ Runs.Along (step oneBlock (.guarded 1)) (Squashes oneBlock (.guarded 1)) twoCores
      (servedAndEvicted ++ remoteWrite) := by
  intro squashes
  have last := squashes.2 _ rfl |>.2 _ rfl |>.2 _ rfl |>.2 _ rfl |>.2 _ rfl |>.2 _ rfl
    |>.2 _ rfl |>.2 _ rfl |>.2 _ rfl |>.1
  obtain ⟨marked, there, reExec⟩ := last _ rfl 1 _ rfl 0 (by decide) 0 1 { paddrs := [0] }
    ⟨rfl, by decide, rfl, rfl, rfl, rfl⟩
  have kept : some marked = some { paddrs := [0] } := there.symm.trans rfl
  cases kept
  cases reExec

end Multicore

end RasCache.Mem
