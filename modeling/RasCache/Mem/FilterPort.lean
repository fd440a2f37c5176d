import RasCache.Mem.Downstream
import RasCache.Mem.SnoopLedger

/-!
# A cache and the snoop filter at its port

One cache behind one port of a crossbar with a snoop filter. The cache tells the
lines of its domains apart: it may miss on one physical line for two domains at
once, and hold a block of the line for each. The filter has one request bit and
one holder bit for the port and the physical line. This module says in which runs
its checks on the two bits pass.
-/
namespace RasCache.Mem

open Outcomes Function

namespace SnoopFilter

variable {n : Nat} (blkSize : Nat)

/-- The panic of `lookupRequest` on a second request for the line. -/
def doubleRequest (filter : SnoopFilter n) (pkt : Packet) (port : Fin n) : Bool :=
  allocates pkt && pkt.needsResponse && !pkt.cacheResponding &&
    decide (port ∈ (filter.item (pkt.snoopLine blkSize)).requested)

/-- The panic of `lookupRequest` on an eviction of a line the port does not hold. -/
def notHolder (filter : SnoopFilter n) (pkt : Packet) (port : Fin n) : Bool :=
  allocates pkt && !pkt.needsResponse &&
    decide (port ∉ (filter.item (pkt.snoopLine blkSize)).holder)

/-- The panic of `updateResponse` on a response without a request. A response for
a line without an entry is let pass. -/
def missingRequestBit (filter : SnoopFilter n) (pkt : Packet) (port : Fin n) : Bool :=
  !pkt.req.flags.uncacheable &&
    (filter.cachedLocations (pkt.snoopLine blkSize)).any fun item => decide (port ∉ item.requested)

end SnoopFilter

/-! ### The system -/

/-- A request of the MSHR `id` that is under way, with its answer once the crossbar
has passed it on. -/
structure Flight where
  id : Nat
  req : Packet
  resp : Option Packet := none
deriving Repr, DecidableEq

/-- The filter waits for the answer. -/
def Flight.waits (blkSize : Nat) (line : SnoopLine) (flight : Flight) : Bool :=
  flight.resp.isNone && !flight.req.req.flags.uncacheable &&
    decide (flight.req.snoopLine blkSize = line)

/-- `held` is the ledger of the lines the port was given by a response and has not
given up since. -/
structure FilterPort (R : Type) (n : Nat) where
  cache : Cache R
  filter : SnoopFilter n := {}
  flights : List Flight := []
  held : SnoopLine → Bool := fun _ => false

/-- What can happen at the port. A packet that is sent can be turned back by the
crossbar, to be sent again later. -/
inductive FilterEvent where
  /-- The core, or the prefetcher, or the level below on the state of a request. -/
  | core (e : CacheEvent)
  | sendMiss (id : Nat) (pendingModifiedResp : Bool) (above : Packet → Bool) (willRetry : Bool)
  | sendWrite (i : Nat) (willRetry : Bool)
  /-- The response to the request of the MSHR `id` passes the crossbar. -/
  | answer (id : Nat) (resp : Packet)
  /-- It reaches the cache. -/
  | deliver (id : Nat) (tick : Nat) (above : Packet → Bool)
  /-- A snoop from below. -/
  | snoop (pkt : Packet) (above : Packet → Bool)
  /-- The cache's answer to such a snoop passes the crossbar. -/
  | supply (pkt : Packet)

/-- The events of a cache that cross no port on the memory side. -/
def CacheEvent.ofCore : CacheEvent → Bool
  | .recvTimingReq .. => true
  | .recvPfAck .. => true
  | .issuePrefetch .. => true
  | .squashPrefetch .. => true
  | .setDownstreamPending .. => true
  | _ => false

namespace FilterPort

variable {R : Type} {n : Nat} (rp : ReplacementPolicy R) (cfg : CacheParams) (port : Fin n)

/-- The packet the cache sends, and the cache once it is accepted. -/
def sends (s : FilterPort R n) : FilterEvent → Option (Cache R × Packet)
  | .sendMiss id pendingModifiedResp above _ =>
    (s.cache.handle rp cfg (.sendMSHRQueuePacket id pendingModifiedResp above)).toOption.bind
      fun (cache, sent) => sent.down.head?.map fun pkt => (cache, pkt)
  | .sendWrite i _ =>
    (s.cache.handle rp cfg (.sendWriteQueuePacket i)).toOption.bind
      fun (cache, sent) => sent.down.head?.map fun pkt => (cache, pkt)
  | _ => none

/-- The packet `lookupRequest` is called with. The crossbar asks the filter about
everything but a WriteClean. -/
def requests (s : FilterPort R n) (e : FilterEvent) : Option Packet :=
  ((s.sends rp cfg e).map Prod.snd).filter fun pkt => decide (pkt.cmd ≠ .writeClean)

/-- The request that a response answers: it is still unanswered, and the response
carries its request and its address. -/
def answers (s : FilterPort R n) (id : Nat) (resp : Packet) : Option Flight :=
  s.flights.find? fun flight =>
    decide (flight.id = id) && flight.resp.isNone && decide (resp.req = flight.req.req) &&
      decide (resp.addr = flight.req.addr) && resp.isResponse

/-- The packet `updateResponse` is called with. -/
def responses (s : FilterPort R n) : FilterEvent → Option Packet
  | .answer id resp => (s.answers id resp).map fun _ => resp
  | _ => none

/-- The filter once the packet has crossed. -/
def crossed (s : FilterPort R n) (pkt : Packet) (willRetry : Bool) : Option (SnoopFilter n) :=
  if pkt.cmd = .writeClean then some s.filter
  else
    (s.filter.lookupRequest cfg.blkSize pkt port).toOption.map fun (after, _) =>
      s.filter.finishRequest cfg.blkSize after pkt willRetry

/-- The sender gives the line up. -/
def givesUp (pkt : Packet) : Bool :=
  decide (pkt.cmd ≠ .writeClean) && SnoopFilter.allocates pkt && !pkt.needsResponse &&
    !pkt.blockCached

def answered (flights : List Flight) (id : Nat) (resp : Packet) : List Flight :=
  flights.map fun flight => if flight.id = id then { flight with resp := some resp } else flight

def setHeld (s : FilterPort R n) (line : SnoopLine) (has : Bool) : SnoopLine → Bool :=
  update s.held line has

def step (s : FilterPort R n) (e : FilterEvent) : Option (FilterPort R n) :=
  match e with
  | .core e =>
    if e.ofCore then (s.cache.step rp cfg e).map fun cache => { s with cache } else none
  | .sendMiss id _ _ willRetry => do
    let (cache, pkt) ← s.sends rp cfg e
    let filter ← s.crossed cfg port pkt willRetry
    -- the cache keeps a packet that is turned back
    if willRetry then some { s with filter }
    -- a cache above that has promised the line responds without the crossbar
    else if pkt.needsResponse && !pkt.cacheResponding then
      some { s with cache, filter, flights := s.flights ++ [{ id, req := pkt }] }
    else some { s with cache, filter }
  | .sendWrite _ willRetry => do
    let (cache, pkt) ← s.sends rp cfg e
    let filter ← s.crossed cfg port pkt willRetry
    if willRetry then some { s with filter }
    else if givesUp pkt then
      some { s with cache, filter, held := s.setHeld (pkt.snoopLine cfg.blkSize) false }
    else some { s with cache, filter }
  | .answer id resp => do
    let flight ← s.answers id resp
    let filter ← (s.filter.updateResponse cfg.blkSize resp port).toOption
    let line := resp.snoopLine cfg.blkSize
    let held :=
      if flight.req.req.flags.uncacheable then s.held
      -- a maintenance operation brings no copy, and may end one
      else if resp.req.isCacheMaintenance then
        if resp.isInvalidate then s.setHeld line false else s.held
      else s.setHeld line true
    some { s with filter, held, flights := answered s.flights id resp }
  | .deliver id tick above => do
    let flight ← s.flights.find? fun flight => decide (flight.id = id)
    let resp ← flight.resp
    let cache ← s.cache.step rp cfg (.recvTimingResp id resp tick above)
    some { s with cache, flights := s.flights.filter fun flight => decide (flight.id ≠ id) }
  | .snoop pkt above =>
    if !pkt.isRequest then none
    else
      let line := pkt.snoopLine cfg.blkSize
      let (filter, dests) := s.filter.lookupSnoop cfg.blkSize pkt
      let snooped :=
        if port ∈ dests then s.cache.step rp cfg (.recvTimingSnoopReq pkt above)
        else some s.cache
      -- with a request under way, the port may still be given the line
      let loses := pkt.isInvalidate && !s.flights.any (Flight.waits cfg.blkSize line)
      snooped.map fun cache =>
        { s with cache, filter, held := if loses then s.setHeld line false else s.held }
  | .supply pkt =>
    some { s with
      filter := s.filter.updateSnoopForward cfg.blkSize pkt
      held := if pkt.hasSharers then s.held else s.setHeld (pkt.snoopLine cfg.blkSize) false }

/-- None of the three checks of the filter fires. -/
def ChecksPass (s : FilterPort R n) (e : FilterEvent) : Prop :=
  (∀ pkt, s.requests rp cfg e = some pkt →
    s.filter.doubleRequest cfg.blkSize pkt port = false ∧
      s.filter.notHolder cfg.blkSize pkt port = false) ∧
  ∀ pkt, s.responses e = some pkt → s.filter.missingRequestBit cfg.blkSize pkt port = false

/-- What the cache would have to see to: a request does not go out while one of
another domain for the same physical line is unanswered, and an eviction is of a
line that the port was given and has not given up since, for whichever domain. -/
def Fits (s : FilterPort R n) (e : FilterEvent) : Prop :=
  ∀ pkt, s.requests rp cfg e = some pkt → SnoopFilter.allocates pkt = true →
    if pkt.needsResponse then
      pkt.cacheResponding = false → ∀ flight ∈ s.flights,
        flight.waits cfg.blkSize (pkt.snoopLine cfg.blkSize) = true →
          flight.req.domainID = pkt.domainID
    else s.held (pkt.snoopLine cfg.blkSize) = true

def start (repl : R) : FilterPort R n := { cache := .empty repl }

/-! ### The ledger and the filter -/

/-- Every request under way is that of an MSHR in service; the filter has the
request bit of the lines whose answer it waits for, one request for each, and the
holder bit of the lines of the ledger. -/
structure Tied (s : FilterPort R n) : Prop where
  queues : s.cache.Queues cfg
  serving : ∀ flight ∈ s.flights, ∃ entry ∈ s.cache.mshrs, entry.id = flight.id ∧
    entry.mshr.inService = true ∧
    (flight.req.req.flags.uncacheable = false →
      entry.mshr.seen (flight.req.line cfg.blkSize) = true)
  unique : ∀ first ∈ s.flights, ∀ second ∈ s.flights, first.id = second.id → first = second
  alone : ∀ line, ∀ first ∈ s.flights, ∀ second ∈ s.flights,
    first.waits cfg.blkSize line = true → second.waits cfg.blkSize line = true →
      first.id = second.id
  requested : ∀ line i, i ∈ (s.filter.item line).requested ↔
    i = port ∧ ∃ flight ∈ s.flights, flight.waits cfg.blkSize line = true
  holder : ∀ line, port ∈ (s.filter.item line).holder ↔ s.held line = true

theorem start_tied (repl : R) : (start repl : FilterPort R n).Tied cfg port where
  queues := Cache.empty_queues repl
  serving := by
    intro _ mem
    cases mem
  unique := by
    intro _ mem
    cases mem
  alone := by
    intro _ _ mem
    cases mem
  requested := by simp [start, SnoopFilter.item]
  holder := by simp [start, SnoopFilter.item]

variable {willRetry : Bool}

theorem crossed_kept {s : FilterPort R n} {pkt : Packet} {filter : SnoopFilter n}
    (turned : willRetry = true ∨ pkt.cmd = .writeClean ∨ SnoopFilter.allocates pkt = false)
    (crosses : s.crossed cfg port pkt willRetry = some filter) : filter.item = s.filter.item := by
  unfold crossed at crosses
  split at crosses
  · cases crosses
    rfl
  next other =>
    obtain ⟨⟨_, _⟩, looked, rfl⟩ := Option.map_eq_some_iff.mp crosses
    rw [toOption_some_iff] at looked
    rw [SnoopFilter.finishRequest_item]
    split
    · rfl
    next final =>
      -- the lookup changes the entry only for a packet that the filter takes in
      rcases SnoopFilter.lookupRequest_item cfg.blkSize looked with
        ⟨_, rfl⟩ | ⟨taken, _⟩
      · rfl
      · rcases turned with retried | clean | passes
        · exact absurd retried final
        · exact absurd clean other
        · rw [passes] at taken
          cases taken

theorem crossed_taken {s : FilterPort R n} {pkt : Packet} {filter : SnoopFilter n}
    (other : pkt.cmd ≠ .writeClean) (taken : SnoopFilter.allocates pkt = true)
    (crosses : s.crossed cfg port pkt false = some filter) :
    ∃ new, SnoopFilter.requestItem (s.filter.item (pkt.snoopLine cfg.blkSize)) pkt port = .ok new ∧
      filter.item = update s.filter.item (pkt.snoopLine cfg.blkSize) new := by
  unfold crossed at crosses
  rw [if_neg other] at crosses
  obtain ⟨⟨_, _⟩, looked, rfl⟩ := Option.map_eq_some_iff.mp crosses
  rw [toOption_some_iff] at looked
  rw [SnoopFilter.finishRequest_item, if_neg Bool.false_ne_true]
  rcases SnoopFilter.lookupRequest_item cfg.blkSize looked with
    ⟨passes, _⟩ | ⟨_, changed⟩
  · rw [passes] at taken
    cases taken
  · exact changed

section Steps

variable {rp cfg port} {s : FilterPort R n}

theorem Tied.refiltered (tied : s.Tied cfg port) (filter : SnoopFilter n)
    (same : filter.item = s.filter.item) :
      ({ s with filter } : FilterPort R n).Tied cfg port where
  queues := tied.queues
  serving := tied.serving
  unique := tied.unique
  alone := tied.alone
  requested line i := by
    rw [same]
    exact tied.requested line i
  holder line := by
    rw [same]
    exact tied.holder line

theorem Tied.moved (tied : s.Tied cfg port) (e : CacheEvent) (cache : Cache R)
    (sent : Cache.Sent)
    (handled : s.cache.handle rp cfg e = .ok (cache, sent))
    (others : ∀ flight ∈ s.flights, Cache.responds e ≠ some flight.id) :
    ({ s with cache } : FilterPort R n).Tied cfg port where
  queues := Cache.handle_queues tied.queues handled
  serving := by
    intro flight mem
    obtain ⟨_, waits, named, busy, seen⟩ := tied.serving flight mem
    obtain ⟨now, after, same, still, line⟩ := Cache.handle_inService
      tied.queues.ordered handled waits busy (named ▸ others flight mem)
    refine ⟨now, after, same.trans named, still, fun cacheable => ?_⟩
    rw [Mshr.seen_congr line]
    exact seen cacheable
  unique := tied.unique
  alone := tied.alone
  requested := tied.requested
  holder := tied.holder

variable {t : FilterPort R n} {id : Nat} {pkt : Packet}

theorem Tied.core (tied : s.Tied cfg port) (e : CacheEvent)
    (taken : s.step rp cfg port (.core e) = some t) : t.Tied cfg port := by
  unfold step at taken
  dsimp only at taken
  split at taken
  next ofCore =>
    obtain ⟨cache, stepped, rfl⟩ := Option.map_eq_some_iff.mp taken
    obtain ⟨sent, handled⟩ := Cache.step_some_iff.mp stepped
    refine tied.moved e cache sent handled fun flight _ => ?_
    cases e with
    | recvTimingResp => cases ofCore
    | _ => nofun
  next => cases taken

/-! ### Requests -/

variable {cache : Cache R} {resp : Packet}

theorem sends_miss (tied : s.Tied cfg port) {pendingModifiedResp : Bool} {above : Packet → Bool}
    (sent : s.sends rp cfg (.sendMiss id pendingModifiedResp above willRetry) =
      some (cache, pkt)) : ∃ entry ∈ s.cache.mshrs, entry.id = id ∧ entry.mshr.inService = false ∧
      Cache.Asks cfg entry.mshr pkt ∧
      (∃ now ∈ cache.mshrs, now.id = id ∧ now.mshr.inService = true ∧
        Cache.SameLine entry.mshr now.mshr) ∧
      ∃ out, s.cache.handle rp cfg (.sendMSHRQueuePacket id pendingModifiedResp above) =
        .ok (cache, out) := by
  obtain ⟨⟨_, _⟩, handled, down⟩ := Option.bind_eq_some_iff.mp sent
  rw [toOption_some_iff] at handled
  obtain ⟨_, head, same⟩ := Option.map_eq_some_iff.mp down
  cases same
  obtain ⟨entry, _, isForward, _, found, idle, packet, rfl, outcome⟩ :=
    Cache.sendMSHRQueuePacket_cases
      handled
  cases head
  obtain ⟨mem, named⟩ := Cache.findId_mem found
  -- the packet asks for the line of the MSHR
  have asks := Cache.missPacket_asks
    (tied.queues.fitted.lined entry mem) (tied.queues.fitted.fits entry mem) packet
  refine ⟨entry, mem, named, idle, asks, ?_, _, handled⟩
  -- the send leaves the MSHR in service
  let sending : Mshr := Mshr.markInService { entry.mshr with isForward } pendingModifiedResp
  have marked : (⟨id, sending⟩ : MshrEntry) ∈ (s.cache.setMshr id sending).mshrs := by
    refine List.mem_map.mpr ⟨entry, mem, ?_⟩
    rw [if_pos named, ← named]
  have there : (⟨id, sending⟩ : MshrEntry) ∈ cache.mshrs := by
    cases outcome <;> exact marked
  exact ⟨⟨id, sending⟩, there, rfl, rfl, rfl, rfl⟩

theorem sends_write {i : Nat} (sent : s.sends rp cfg (.sendWrite i willRetry) = some (cache, pkt)) :
    pkt ∈ s.cache.writeBuffer ∧
      ∃ out, s.cache.handle rp cfg (.sendWriteQueuePacket i) = .ok (cache, out) := by
  obtain ⟨⟨_, out⟩, handled, down⟩ := Option.bind_eq_some_iff.mp sent
  rw [toOption_some_iff] at handled
  obtain ⟨_, head, same⟩ := Option.map_eq_some_iff.mp down
  cases same
  refine ⟨?_, out, handled⟩
  obtain ⟨_, found, handled⟩ := bind_ok_iff.mp handled
  rw [Cache.orFail_ok_iff] at found
  cases handled
  cases head
  exact List.mem_of_getElem? found

/-- A cacheable packet that asks for a response is no WriteClean. -/
theorem not_writeClean (asks : pkt.needsResponse = true) : pkt.cmd ≠ .writeClean := by
  intro clean
  rw [Packet.needsResponse, clean] at asks
  cases asks

theorem waits_iff (blkSize : Nat) (line : SnoopLine) (flight : Flight) :
    flight.waits blkSize line = true ↔ flight.resp = none ∧
      flight.req.req.flags.uncacheable = false ∧ flight.req.snoopLine blkSize = line := by
  simp [Flight.waits, and_assoc]

/-- The MSHR of a flight waits for it. -/
def Serving (cfg : CacheParams) (cache : Cache R) (flight : Flight) : Prop :=
  ∃ entry ∈ cache.mshrs, entry.id = flight.id ∧ entry.mshr.inService = true ∧
    (flight.req.req.flags.uncacheable = false →
      entry.mshr.seen (flight.req.line cfg.blkSize) = true)

section Requests

variable (tied : s.Tied cfg port) (filter : SnoopFilter n) (flight : Flight)
  (serving : Serving cfg s.cache flight) (fresh : ∀ old ∈ s.flights, old.id ≠ flight.id)

include tied serving fresh

theorem Tied.launched (free : ∀ line, flight.waits cfg.blkSize line = true →
      ∀ old ∈ s.flights, old.waits cfg.blkSize line = false)
    (requested : ∀ line i, i ∈ (filter.item line).requested ↔
      i ∈ (s.filter.item line).requested ∨ i = port ∧ flight.waits cfg.blkSize line = true)
    (holder : ∀ line, (filter.item line).holder = (s.filter.item line).holder) :
    ({ s with filter, flights := s.flights ++ [flight] } : FilterPort R n).Tied cfg port where
  queues := tied.queues
  serving := List.forall_mem_append.mpr ⟨tied.serving, List.forall_mem_singleton.mpr serving⟩
  unique := by
    intro first one second two same
    -- the new flight is told from the others by its number
    rcases List.mem_append.mp one with old | new <;>
      rcases List.mem_append.mp two with old' | new'
    · exact tied.unique first old second old' same
    · obtain rfl := List.mem_singleton.mp new'
      exact absurd same (fresh first old)
    · obtain rfl := List.mem_singleton.mp new
      exact absurd same.symm (fresh second old')
    · rw [List.mem_singleton.mp new, List.mem_singleton.mp new']
  alone := by
    intro line first one second two waits waits'
    -- no other flight waits for its line
    rcases List.mem_append.mp one with old | new <;>
      rcases List.mem_append.mp two with old' | new'
    · exact tied.alone line first old second old' waits waits'
    · obtain rfl := List.mem_singleton.mp new'
      rw [free line waits' first old] at waits
      cases waits
    · obtain rfl := List.mem_singleton.mp new
      rw [free line waits second old'] at waits'
      cases waits'
    · rw [List.mem_singleton.mp new, List.mem_singleton.mp new']
  requested line i := by
    rw [requested, tied.requested]
    constructor
    · rintro (⟨here, old, mem, waits⟩ | ⟨here, waits⟩)
      · exact ⟨here, old, List.mem_append_left _ mem, waits⟩
      · exact ⟨here, flight, List.mem_append_right _ (List.mem_singleton.mpr rfl), waits⟩
    · rintro ⟨here, other, mem, waits⟩
      rcases List.mem_append.mp mem with old | new
      · exact .inl ⟨here, other, old, waits⟩
      · obtain rfl := List.mem_singleton.mp new
        exact .inr ⟨here, waits⟩
  holder line := by
    rw [holder]
    exact tied.holder line

theorem Tied.bypassed (uncacheable : flight.req.req.flags.uncacheable = true)
    (same : filter.item = s.filter.item) :
    ({ s with filter, flights := s.flights ++ [flight] } : FilterPort R n).Tied cfg port := by
  have idle (line : SnoopLine) : flight.waits cfg.blkSize line = false := by
    simp [Flight.waits, uncacheable]
  refine tied.launched filter flight serving fresh ?_ ?_ ?_
  · intro line waits
    rw [idle line] at waits
    cases waits
  · intro line _
    simp [same, idle line]
  · intro _
    rw [same]

theorem Tied.asked (open_ : flight.resp = none)
    (cacheable : flight.req.req.flags.uncacheable = false)
    (unasked : port ∉ (s.filter.item (flight.req.snoopLine cfg.blkSize)).requested)
    (changed : filter.item = update s.filter.item (flight.req.snoopLine cfg.blkSize)
      { s.filter.item (flight.req.snoopLine cfg.blkSize) with
        requested := insert port
          (s.filter.item (flight.req.snoopLine cfg.blkSize)).requested }) :
    ({ s with filter, flights := s.flights ++ [flight] } : FilterPort R n).Tied cfg port := by
  have only (line : SnoopLine) (waits : flight.waits cfg.blkSize line = true) :
      line = flight.req.snoopLine cfg.blkSize :=
    ((waits_iff cfg.blkSize line _).mp waits).2.2.symm
  have own : flight.waits cfg.blkSize (flight.req.snoopLine cfg.blkSize) = true :=
    (waits_iff cfg.blkSize _ _).mpr ⟨open_, cacheable, rfl⟩
  refine tied.launched filter flight serving fresh ?_ ?_ ?_
  · -- the filter has let the request in, so no other one waits for the line
    intro line waits old mem
    rw [only line waits, Bool.eq_false_iff]
    intro still
    exact unasked ((tied.requested _ port).mpr ⟨rfl, old, mem, still⟩)
  · intro line _
    rw [changed]
    by_cases this : line = flight.req.snoopLine cfg.blkSize
    · subst this
      simp [own, or_comm]
    · have apart : flight.waits cfg.blkSize line ≠ true := fun waits => this (only line waits)
      simp [this, apart]
  · intro line
    rw [changed]
    by_cases this : line = flight.req.snoopLine cfg.blkSize
    · subst this
      simp
    · simp [this]

end Requests

section

variable (tied : s.Tied cfg port)
include tied

theorem Tied.sendMiss (id : Nat) (pendingModifiedResp : Bool) (above : Packet → Bool)
    (willRetry : Bool) (taken : s.step rp cfg port
      (.sendMiss id pendingModifiedResp above willRetry) = some t) : t.Tied cfg port := by
  obtain ⟨⟨cache, pkt⟩, sent, taken⟩ := Option.bind_eq_some_iff.mp taken
  obtain ⟨filter, crosses, taken⟩ := Option.bind_eq_some_iff.mp taken
  split at taken
  next retried =>
    cases taken
    exact tied.refiltered filter (crossed_kept cfg port (.inl retried) crosses)
  next final =>
    have final : willRetry = false := by simpa using final
    rw [final] at crosses
    obtain ⟨entry, mem, named, idle, asks, ⟨now, there, here, busy, line⟩, out, handled⟩ :=
      sends_miss tied sent
    have moved := tied.moved _ cache out handled (fun _ _ => nofun)
    -- the requests under way are those of busy MSHRs, and this one was idle
    have fresh : ∀ old ∈ s.flights, old.id ≠ id := by
      intro old waits same
      obtain ⟨other, present, name, serving, _⟩ := tied.serving old waits
      rw [tied.queues.ordered.unique other entry present mem (by rw [name, same, named]),
        idle] at serving
      cases serving
    have serving : Serving cfg cache { id, req := pkt } := by
      refine ⟨now, there, here, busy, fun cacheable => ?_⟩
      rw [Mshr.seen_congr line, Mshr.seen, asks.line]
      simp [asks.cacheable cacheable]
    cases uncacheable : pkt.req.flags.uncacheable with
    | true =>
      have passes : SnoopFilter.allocates pkt = false := by
        simp [SnoopFilter.allocates, uncacheable]
      have same := crossed_kept cfg port (.inr (.inr passes)) crosses
      split at taken <;> cases taken
      · exact moved.bypassed filter { id, req := pkt } serving fresh uncacheable same
      · exact moved.refiltered filter same
    | false =>
      have needs := asks.needsResponse uncacheable
      have takes : SnoopFilter.allocates pkt = true := by
        simp [SnoopFilter.allocates, uncacheable, asks.fromCache uncacheable]
      obtain ⟨_, requested, changed⟩ := crossed_taken cfg port (not_writeClean needs) takes crosses
      cases SnoopFilter.requestItem_cases requested with
      | asked _ open_ unasked =>
        rw [needs, open_, Bool.not_false, Bool.and_true, if_pos rfl] at taken
        cases taken
        exact moved.asked filter { id, req := pkt } serving fresh rfl uncacheable unasked changed
      | promised _ responding =>
        rw [responding, Bool.not_true, Bool.and_false, if_neg Bool.false_ne_true] at taken
        cases taken
        rw [update_eq_self] at changed
        exact moved.refiltered filter changed
      | evicted silent | cached silent =>
        rw [silent] at needs
        cases needs

/-! ### Evictions and snoops -/

/-- The holder bit of a line changes together with the ledger. -/
theorem Tied.reheld (filter : SnoopFilter n) (line : SnoopLine) (new : SnoopItem n) (has : Bool)
    (changed : filter.item = update s.filter.item line new)
    (requested : new.requested = (s.filter.item line).requested)
    (holder : port ∈ new.holder ↔ has = true) :
    ({ s with filter, held := s.setHeld line has } : FilterPort R n).Tied cfg port where
  queues := tied.queues
  serving := tied.serving
  unique := tied.unique
  alone := tied.alone
  requested other i := by
    rw [changed]
    -- only the entry of the line changes
    by_cases this : other = line
    · subst this
      rw [update_self, requested]
      exact tied.requested other i
    · rw [update_of_ne this]
      exact tied.requested other i
  holder other := by
    change _ ↔ update s.held line has other = true
    rw [changed]
    by_cases this : other = line
    · subst this
      rw [update_self, update_self]
      exact holder
    · rw [update_of_ne this, update_of_ne this]
      exact tied.holder other

theorem Tied.sendWrite (i : Nat) (willRetry : Bool)
    (taken : s.step rp cfg port (.sendWrite i willRetry) = some t) : t.Tied cfg port := by
  obtain ⟨⟨cache, pkt⟩, sent, taken⟩ := Option.bind_eq_some_iff.mp taken
  obtain ⟨filter, crosses, taken⟩ := Option.bind_eq_some_iff.mp taken
  split at taken
  next retried =>
    cases taken
    exact tied.refiltered filter (crossed_kept cfg port (.inl retried) crosses)
  next final =>
    have final : willRetry = false := by simpa using final
    rw [final] at crosses
    obtain ⟨mem, out, handled⟩ := sends_write sent
    have moved := tied.moved _ cache out handled (fun _ _ => nofun)
    -- a write that passes the filter by, or an eviction
    by_cases passes : pkt.cmd = .writeClean ∨ SnoopFilter.allocates pkt = false
    · have keeps : givesUp pkt = false := by
        rcases passes with clean | passes
        · simp [givesUp, clean]
        · simp [givesUp, passes]
      rw [keeps, if_neg Bool.false_ne_true] at taken
      cases taken
      exact moved.refiltered filter (crossed_kept cfg port (.inr passes) crosses)
    · obtain ⟨other, takes⟩ := not_or.mp passes
      have takes : SnoopFilter.allocates pkt = true := by simpa using takes
      -- an eviction is not answered
      have silent : pkt.needsResponse = false := by
        rcases tied.queues.mute pkt mem with uncacheable | silent
        · simp [SnoopFilter.allocates, uncacheable] at takes
        · exact silent
      obtain ⟨_, requested, changed⟩ := crossed_taken cfg port other takes crosses
      cases SnoopFilter.requestItem_cases requested with
      | asked needs | promised needs =>
        rw [silent] at needs
        cases needs
      | evicted _ _ _ gone =>
        have leaves : givesUp pkt = true := by simp [givesUp, other, takes, silent, gone]
        rw [leaves, if_pos rfl] at taken
        cases taken
        exact moved.reheld filter _ _ false changed rfl (by simp)
      | cached _ _ _ above =>
        have keeps : givesUp pkt = false := by simp [givesUp, above]
        rw [keeps, if_neg Bool.false_ne_true] at taken
        cases taken
        rw [update_eq_self] at changed
        exact moved.refiltered filter changed

theorem Tied.supply (pkt : Packet) (taken : s.step rp cfg port (.supply pkt) = some t) :
    t.Tied cfg port := by
  have changed := SnoopFilter.updateSnoopForward_item cfg.blkSize s.filter pkt
  dsimp only at changed
  cases taken
  cases shared : pkt.hasSharers with
  | true =>
    simp only [shared, if_true] at changed ⊢
    exact tied.refiltered _ (changed.trans (update_eq_self _ _))
  | false =>
    simp only [shared, Bool.false_eq_true, if_false] at changed ⊢
    exact tied.reheld _ _ _ false changed rfl (by simp)

theorem Tied.snoop (pkt : Packet) (above : Packet → Bool)
    (taken : s.step rp cfg port (.snoop pkt above) = some t) : t.Tied cfg port := by
  unfold step at taken
  dsimp only at taken
  split at taken
  · cases taken
  · obtain ⟨cache, snooped, rfl⟩ := Option.map_eq_some_iff.mp taken
    have moved : ({ s with cache } : FilterPort R n).Tied cfg port := by
      split at snooped
      · obtain ⟨sent, handled⟩ := Cache.step_some_iff.mp snooped
        exact tied.moved _ cache sent handled (fun _ _ => nofun)
      · cases snooped
        exact tied
    have changed := SnoopFilter.lookupSnoop_item cfg.blkSize s.filter pkt
    -- the filter sees the same requests under way as the ledger
    have free : (s.filter.item (pkt.snoopLine cfg.blkSize)).requested = ∅ ↔
        s.flights.any (Flight.waits cfg.blkSize (pkt.snoopLine cfg.blkSize)) = false := by
      rw [Finset.eq_empty_iff_forall_notMem, List.any_eq_false]
      constructor
      · intro empty flight mem waits
        exact empty port ((tied.requested _ port).mpr ⟨rfl, flight, mem, waits⟩)
      · intro idle i listed
        obtain ⟨_, flight, mem, waits⟩ := (tied.requested _ i).mp listed
        exact idle flight mem waits
    unfold SnoopFilter.snoopItem at changed
    by_cases loses : pkt.isInvalidate = true ∧
        (s.filter.item (pkt.snoopLine cfg.blkSize)).requested = ∅
    · rw [if_pos loses] at changed
      rw [loses.1, free.mp loses.2, Bool.not_false, Bool.and_true, if_pos rfl]
      exact moved.reheld _ _ _ false changed rfl (by simp)
    · rw [if_neg loses, update_eq_self] at changed
      have keeps : (pkt.isInvalidate && !s.flights.any (Flight.waits cfg.blkSize
          (pkt.snoopLine cfg.blkSize))) = false := by
        rw [free] at loses
        simpa using loses
      rw [keeps, if_neg Bool.false_ne_true]
      exact moved.refiltered _ changed

end

/-! ### Responses -/

theorem answers_some (blkSize : Nat) {flight : Flight} (found : s.answers id resp = some flight) :
    flight ∈ s.flights ∧ flight.id = id ∧ flight.resp = none ∧ resp.req = flight.req.req ∧
      resp.snoopLine blkSize = flight.req.snoopLine blkSize := by
  have test := List.find?_some found
  simp only [Bool.and_eq_true, decide_eq_true_eq, Option.isNone_iff_eq_none] at test
  obtain ⟨⟨⟨⟨named, open_⟩, req⟩, addr⟩, _⟩ := test
  refine ⟨List.mem_of_find?_eq_some found, named, open_, req, ?_⟩
  simp only [Packet.snoopLine, Packet.isSecure, req, addr]

theorem mem_answered {flights : List Flight} {flight : Flight}
    (mem : flight ∈ answered flights id resp) :
    ∃ old ∈ flights, flight.id = old.id ∧ flight.req = old.req ∧
      flight = if old.id = id then { old with resp := some resp } else old := by
  obtain ⟨old, before, rfl⟩ := List.mem_map.mp mem
  refine ⟨old, before, ?_, ?_, rfl⟩
  · split <;> rfl
  · split <;> rfl

theorem waits_answered (blkSize : Nat) (flights : List Flight) (id : Nat) (resp : Packet)
    (line : SnoopLine) : (∃ flight ∈ answered flights id resp, flight.waits blkSize line = true) ↔
      ∃ old ∈ flights, old.id ≠ id ∧ old.waits blkSize line = true := by
  constructor
  · rintro ⟨flight, mem, waits⟩
    obtain ⟨old, before, _, _, same⟩ := mem_answered mem
    by_cases this : old.id = id
    · rw [same, if_pos this, waits_iff] at waits
      cases waits.1
    · rw [same, if_neg this] at waits
      exact ⟨old, before, this, waits⟩
  · rintro ⟨old, before, other, waits⟩
    refine ⟨old, List.mem_map.mpr ⟨old, before, ?_⟩, waits⟩
    rw [if_neg other]

section

variable (tied : s.Tied cfg port)
include tied

theorem Tied.answeredBy (id : Nat) (resp : Packet) (filter : SnoopFilter n)
    (held : SnoopLine → Bool)
    (requested : ∀ line i, i ∈ (filter.item line).requested ↔ i = port ∧
      ∃ old ∈ s.flights, old.id ≠ id ∧ old.waits cfg.blkSize line = true)
    (holder : ∀ line, port ∈ (filter.item line).holder ↔ held line = true) :
    ({ s with filter, held, flights := answered s.flights id resp } : FilterPort R n).Tied
      cfg port where
  queues := tied.queues
  serving := by
    intro _ mem
    obtain ⟨old, before, named, req, _⟩ := mem_answered mem
    rw [named, req]
    exact tied.serving old before
  unique := by
    intro _ one _ two same
    obtain ⟨old, before, named, _, whole⟩ := mem_answered one
    obtain ⟨old', before', named', _, whole'⟩ := mem_answered two
    rw [whole, whole', tied.unique old before old' before' (by rw [← named, ← named', same])]
  alone := by
    intro line first one second two waits waits'
    obtain ⟨old, before, named, _, whole⟩ := mem_answered one
    obtain ⟨old', before', named', _, whole'⟩ := mem_answered two
    -- what waits after the answer waited before
    have still (flight old : Flight) (whole : flight = if old.id = id then
        { old with resp := some resp } else old)
        (waits : flight.waits cfg.blkSize line = true) :
        old.waits cfg.blkSize line = true := by
      split at whole
      · rw [whole, waits_iff] at waits
        cases waits.1
      · rwa [whole] at waits
    rw [named, named']
    exact tied.alone line old before old' before' (still first old whole waits)
      (still second old' whole' waits')
  requested line i := by
    rw [requested]
    exact and_congr_right fun _ => (waits_answered cfg.blkSize s.flights id resp line).symm
  holder := holder

/-- The line of an answered request is not waited for any more; the others are
waited for as before. -/
theorem Tied.waits_others (flight : Flight) (mem : flight ∈ s.flights) (line : SnoopLine) :
    (∃ old ∈ s.flights, old.id ≠ flight.id ∧ old.waits cfg.blkSize line = true) ↔
      flight.waits cfg.blkSize line = false ∧
        ∃ old ∈ s.flights, old.waits cfg.blkSize line = true := by
  constructor
  · rintro ⟨old, before, other, waits⟩
    refine ⟨Bool.eq_false_iff.mpr fun same => other ?_, old, before, waits⟩
    exact tied.alone line old before flight mem waits same
  · rintro ⟨idle, old, before, waits⟩
    refine ⟨old, before, fun same => ?_, waits⟩
    rw [tied.unique old before flight mem same, idle] at waits
    cases waits

theorem Tied.answer (id : Nat) (resp : Packet)
    (taken : s.step rp cfg port (.answer id resp) = some t) : t.Tied cfg port := by
  obtain ⟨flight, found, taken⟩ := Option.bind_eq_some_iff.mp taken
  obtain ⟨filter, updated, taken⟩ := Option.bind_eq_some_iff.mp taken
  rw [toOption_some_iff] at updated
  cases taken
  obtain ⟨mem, named, open_, req, here⟩ := answers_some cfg.blkSize found
  have others := tied.waits_others flight mem
  rw [named] at others
  cases uncacheable : flight.req.req.flags.uncacheable with
  | true =>
    -- neither the filter nor the ledger looks at an uncacheable response
    have same : filter = s.filter := by
      unfold SnoopFilter.updateResponse at updated
      rw [req, uncacheable, if_pos rfl] at updated
      exact (Except.ok.inj updated).symm
    have idle (line : SnoopLine) : flight.waits cfg.blkSize line = false := by
      simp [Flight.waits, uncacheable]
    rw [if_pos rfl]
    refine tied.answeredBy id resp filter s.held ?_ ?_
    · intro line _
      rw [same, tied.requested, others]
      simp [idle line]
    · intro line
      rw [same]
      exact tied.holder line
  | false =>
    have cacheable : resp.req.flags.uncacheable = false := by rw [req, uncacheable]
    have own : flight.waits cfg.blkSize (resp.snoopLine cfg.blkSize) = true :=
      (waits_iff cfg.blkSize _ flight).mpr ⟨open_, uncacheable, here.symm⟩
    have asked : port ∈ (s.filter.item (resp.snoopLine cfg.blkSize)).requested :=
      (tied.requested _ port).mpr ⟨rfl, flight, mem, own⟩
    have changed := SnoopFilter.updateResponse_item cfg.blkSize cacheable asked updated
    rw [if_neg Bool.false_ne_true]
    refine tied.answeredBy id resp filter _ ?_ ?_
    · intro line _
      rw [changed, others]
      by_cases this : line = resp.snoopLine cfg.blkSize
      · subst this
        rw [update_self]
        simp only [SnoopFilter.responseItem, Finset.mem_erase, own, tied.requested]
        constructor
        · rintro ⟨other, same, _⟩
          exact absurd same other
        · rintro ⟨_, never, _⟩
          cases never
      · have idle : flight.waits cfg.blkSize line = false := by
          rw [Bool.eq_false_iff]
          intro waits
          exact this (((waits_iff cfg.blkSize line flight).mp waits).2.2.symm.trans here.symm)
        rw [update_of_ne this, tied.requested]
        simp [idle]
    · intro line
      rw [changed]
      unfold SnoopFilter.responseItem setHeld
      by_cases this : line = resp.snoopLine cfg.blkSize
      · subst this
        rw [update_self]
        cases resp.req.isCacheMaintenance with
        | false => simp
        | true => cases resp.isInvalidate <;> simp [tied.holder]
      · rw [update_of_ne this, tied.holder]
        cases resp.req.isCacheMaintenance with
        | false => simp [this]
        | true => cases resp.isInvalidate <;> simp [this]

theorem Tied.deliver (id tick : Nat) (above : Packet → Bool)
    (taken : s.step rp cfg port (.deliver id tick above) = some t) : t.Tied cfg port := by
  obtain ⟨flight, found, taken⟩ := Option.bind_eq_some_iff.mp taken
  obtain ⟨_, answered, taken⟩ := Option.bind_eq_some_iff.mp taken
  obtain ⟨cache, stepped, taken⟩ := Option.bind_eq_some_iff.mp taken
  cases taken
  obtain ⟨sent, handled⟩ := Cache.step_some_iff.mp stepped
  have mem := List.mem_of_find?_eq_some found
  have named : flight.id = id := by simpa using List.find?_some found
  have stays (other : Flight)
    (kept : other ∈ s.flights.filter fun flight => decide (flight.id ≠ id)) :
      other ∈ s.flights ∧ other.id ≠ id := by simpa using kept
  -- an answered request was no longer waited for
  have settled : ∀ line, (∃ other ∈ s.flights.filter fun flight => decide (flight.id ≠ id),
      other.waits cfg.blkSize line = true) ↔
        ∃ other ∈ s.flights, other.waits cfg.blkSize line = true := by
    intro _
    constructor
    · rintro ⟨other, kept, waits⟩
      exact ⟨other, (stays other kept).1, waits⟩
    · rintro ⟨other, before, waits⟩
      refine ⟨other, List.mem_filter.mpr ⟨before, ?_⟩, waits⟩
      rw [decide_eq_true_eq]
      intro same
      rw [tied.unique other before flight mem (same.trans named.symm), waits_iff, answered] at waits
      cases waits.1
  have dropped : ({ s with flights := s.flights.filter fun flight => decide (flight.id ≠ id) } :
      FilterPort R n).Tied cfg port :=
    { queues := tied.queues
      serving := fun other kept => tied.serving other (stays other kept).1
      unique := fun first one second two =>
        tied.unique first (stays first one).1 second (stays second two).1
      alone := fun line first one second two =>
        tied.alone line first (stays first one).1 second (stays second two).1
      requested := fun line i => by rw [tied.requested, settled]
      holder := tied.holder }
  refine dropped.moved _ cache sent handled fun other kept same => ?_
  exact (stays other kept).2 (Option.some.inj same).symm

/-- Every step keeps the filter and the ledger tied. -/
theorem Tied.step (e : FilterEvent) (taken : s.step rp cfg port e = some t) : t.Tied cfg port := by
  cases e with
  | core e => exact tied.core e taken
  | sendMiss id pendingModifiedResp above willRetry =>
    exact tied.sendMiss id pendingModifiedResp above willRetry taken
  | sendWrite i willRetry => exact tied.sendWrite i willRetry taken
  | answer id resp => exact tied.answer id resp taken
  | deliver id tick above => exact tied.deliver id tick above taken
  | snoop pkt above => exact tied.snoop pkt above taken
  | supply pkt => exact tied.supply pkt taken

/-! ### When the checks pass -/

/-- The filter has a request bit for every response it looks at. -/
theorem Tied.responses_expected {e : FilterEvent} {pkt : Packet}
    (response : s.responses e = some pkt) :
    s.filter.missingRequestBit cfg.blkSize pkt port = false := by
  cases e with
  | answer _ resp =>
    obtain ⟨flight, found, rfl⟩ := Option.map_eq_some_iff.mp response
    obtain ⟨mem, _, open_, req, here⟩ := answers_some cfg.blkSize found
    unfold SnoopFilter.missingRequestBit
    cases uncacheable : resp.req.flags.uncacheable with
    | true => rfl
    | false =>
      have own : flight.waits cfg.blkSize (resp.snoopLine cfg.blkSize) = true :=
        (waits_iff cfg.blkSize _ flight).mpr ⟨open_, by rw [← req, uncacheable], here.symm⟩
      have asked := (tied.requested _ port).mpr ⟨rfl, flight, mem, own⟩
      unfold SnoopFilter.item at asked
      cases entry : s.filter.cachedLocations (resp.snoopLine cfg.blkSize) with
      | none => simp
      | some =>
        rw [entry, Option.getD_some] at asked
        simp [asked]
  | _ => cases response

/-- Two requests of one domain for one line never go out at once: they would be
the requests of one MSHR. -/
theorem Tied.same_domain_answered (id : Nat) (pendingModifiedResp : Bool) (above : Packet → Bool)
    (willRetry : Bool) (pkt : Packet) (cacheable : pkt.req.flags.uncacheable = false)
    (request : s.requests rp cfg (.sendMiss id pendingModifiedResp above willRetry) = some pkt)
    (flight : Flight) (mem : flight ∈ s.flights)
    (waits : flight.waits cfg.blkSize (pkt.snoopLine cfg.blkSize) = true) :
    flight.req.domainID ≠ pkt.domainID := by
  intro domain
  obtain ⟨down, _⟩ := Option.filter_eq_some_iff.mp request
  obtain ⟨⟨_, same⟩, sent, rfl⟩ := Option.map_eq_some_iff.mp down
  obtain ⟨entry, present, _, idle, asks, _, _⟩ := sends_miss tied sent
  -- the flight has an MSHR in service, and the request one that is idle
  obtain ⟨other, present', _, busy, seen⟩ := tied.serving flight mem
  obtain ⟨_, visible', physical⟩ := (waits_iff cfg.blkSize _ flight).mp waits
  have line : flight.req.line cfg.blkSize = entry.mshr.key := by
    rw [← asks.line]
    simp only [Packet.snoopLine, SnoopLine.mk.injEq] at physical
    simp only [Packet.line, LineKey.mk.injEq]
    exact ⟨physical.1, physical.2, domain⟩
  have found : entry.mshr.seen (flight.req.line cfg.blkSize) = true := by
    simp [Mshr.seen, asks.cacheable cacheable, line]
  -- a line has one MSHR, so the two are the same
  have number := tied.queues.single _ other present' entry present (seen visible') found
  rw [tied.queues.ordered.unique other entry present' present number, idle] at busy
  cases busy

end

theorem allocates_cacheable (takes : SnoopFilter.allocates pkt = true) :
    pkt.req.flags.uncacheable = false := by
  simp only [SnoopFilter.allocates, Bool.and_eq_true, Bool.not_eq_true'] at takes
  exact takes.1

/-- The checks on a packet that is sent, in terms of the ledger. -/
theorem Tied.checks_iff (tied : s.Tied cfg port) (pkt : Packet) :
    (s.filter.doubleRequest cfg.blkSize pkt port = false ∧
        s.filter.notHolder cfg.blkSize pkt port = false) ↔ (SnoopFilter.allocates pkt = true →
        if pkt.needsResponse then pkt.cacheResponding = false → ∀ flight ∈ s.flights,
          flight.waits cfg.blkSize (pkt.snoopLine cfg.blkSize) = false
        else s.held (pkt.snoopLine cfg.blkSize) = true) := by
  have asked := tied.requested (pkt.snoopLine cfg.blkSize) port
  have holds := tied.holder (pkt.snoopLine cfg.blkSize)
  unfold SnoopFilter.doubleRequest SnoopFilter.notHolder
  cases takes : SnoopFilter.allocates pkt with
  | false => simp
  | true =>
    cases needs : pkt.needsResponse with
    | true => cases responding : pkt.cacheResponding <;> simp [asked]
    | false => simp [holds]

theorem Tied.checksPass_iff (tied : s.Tied cfg port) (e : FilterEvent) :
    s.ChecksPass rp cfg port e ↔ s.Fits rp cfg e := by
  constructor
  · rintro ⟨pass, _⟩ pkt request takes
    have clear := (tied.checks_iff pkt).mp (pass pkt request) takes
    split
    next needs =>
      rw [if_pos needs] at clear
      intro responding flight mem waits
      rw [clear responding flight mem] at waits
      cases waits
    next silent =>
      rw [if_neg silent] at clear
      exact clear
  · intro fits
    refine ⟨fun pkt request => (tied.checks_iff pkt).mpr fun takes => ?_,
      fun pkt response => tied.responses_expected response⟩
    have fit := fits pkt request takes
    split
    next needs =>
      rw [if_pos needs] at fit
      intro responding flight mem
      rw [Bool.eq_false_iff]
      intro waits
      have domain := fit responding flight mem waits
      cases e with
      | sendMiss id pendingModifiedResp above willRetry =>
        exact tied.same_domain_answered id pendingModifiedResp above willRetry pkt
          (allocates_cacheable takes) request flight mem waits domain
      | sendWrite =>
        -- the write buffer has no cacheable packet that asks for a response
        obtain ⟨down, _⟩ := Option.filter_eq_some_iff.mp request
        obtain ⟨⟨_, same⟩, sent, rfl⟩ := Option.map_eq_some_iff.mp down
        obtain ⟨buffered, _⟩ := sends_write sent
        rcases tied.queues.mute same buffered with uncacheable | silent
        · rw [allocates_cacheable takes] at uncacheable
          cases uncacheable
        · rw [silent] at needs
          cases needs
      | _ => cases request
    next silent =>
      rw [if_neg silent] at fit
      exact fit

end Steps

/-- In a run from the empty cache the filter's checks pass exactly if every packet
fits: the filter knows neither the domain of a request nor for how many domains
the cache has a line. The check on responses never fires. -/
theorem checks_pass_iff (repl : R) (events : List FilterEvent) :
    Runs.Along (step rp cfg port) (ChecksPass rp cfg port) (start repl) events ↔
      Runs.Along (step rp cfg port) (Fits rp cfg) (start repl) events := by
  have keeps (ok : FilterPort R n → FilterEvent → Prop) (s : FilterPort R n) (e : FilterEvent)
      (t : FilterPort R n) (tied : s.Tied cfg port) (_ : ok s e)
      (taken : s.step rp cfg port e = some t) : t.Tied cfg port := tied.step e taken
  constructor
  · exact Runs.along_of_invariant (keeps _) (fun s e tied => (tied.checksPass_iff e).mp)
      (start repl) events (start_tied cfg port repl)
  · exact Runs.along_of_invariant (keeps _) (fun s e tied => (tied.checksPass_iff e).mpr)
      (start repl) events (start_tied cfg port repl)

/-! ### Two domains and one physical line -/

def load (domainID : DomainID) (addr : Addr) : FilterEvent :=
  .core (.recvTimingReq (Packet.ofRequest { domainID } .readReq addr 8) 0 fun _ => false)

def sendMiss (id : Nat) : FilterEvent := .sendMiss id false (fun _ => false) false

/-- The request of the MSHR `id` goes out and its response comes back. -/
def fetch (id : Nat) (domainID : DomainID) (addr : Addr) : List FilterEvent :=
  [sendMiss id,
   .answer id (Packet.ofBlock { domainID } .readSharedReq addr 64).makeResponse,
   .deliver id 0 fun _ => false]

/-- Both domains miss on the line, and the first request is out. -/
def bothMiss : List FilterEvent := [load 0 0, load 1 0, sendMiss 0]

/-- Both domains fetch the line in turn. The second block takes the place of the
first, whose eviction goes out, and is then evicted in its turn. -/
def bothHold : List FilterEvent :=
  load 0 0 :: fetch 0 0 0 ++ load 1 0 :: fetch 1 1 0 ++ .sendWrite 0 false ::
    load 1 64 :: fetch 2 1 64

/-- The check at the next event, at the end of a run of a first-level cache with
one block. -/
def checkedAfter (check : SnoopFilter 1 → Packet → Fin 1 → Bool) (events : List FilterEvent)
    (next : FilterEvent) : Option Bool :=
  (Runs.run (step oneBlock (.guarded 0) 0) (start ()) events).map fun s =>
    (s.requests oneBlock (.guarded 0) next).any fun pkt => check s.filter pkt 0

theorem checks_fail_of_checkedAfter {events : List FilterEvent} {next : FilterEvent}
    (fails : checkedAfter (SnoopFilter.doubleRequest 64) events next = some true ∨
      checkedAfter (SnoopFilter.notHolder 64) events next = some true) :
    ¬ Runs.Along (step oneBlock (.guarded 0) (0 : Fin 1)) (ChecksPass oneBlock (.guarded 0) 0)
      (start ()) (events ++ [next]) := by
  -- the two checks stand in one conjunction of `ChecksPass`
  have refused (check : SnoopFilter 1 → Packet → Fin 1 → Bool)
      (which : ∀ (s : FilterPort Unit 1) pkt, s.requests oneBlock (.guarded 0) next = some pkt →
        s.ChecksPass oneBlock (.guarded 0) 0 next → check s.filter pkt 0 = false)
      (fails : checkedAfter check events next = some true) :
      ¬ Runs.Along (step oneBlock (.guarded 0) (0 : Fin 1)) (ChecksPass oneBlock (.guarded 0) 0)
        (start ()) (events ++ [next]) := by
    obtain ⟨s, ran, fires⟩ := Option.map_eq_some_iff.mp fails
    refine Runs.not_along_of_run _ s events next ran fun pass => ?_
    obtain ⟨pkt, request, fires⟩ := (Option.any_eq_true _ _).mp fires
    rw [which s pkt request pass] at fires
    cases fires
  rcases fails with fails | fails
  · exact refused _ (fun s pkt request pass => (pass.1 pkt request).1) fails
  · exact refused _ (fun s pkt request pass => (pass.1 pkt request).2) fails

/-- The request of the second domain is a double request. With both domains'
copies evicted one after the other, the second eviction is not that of a holder. -/
theorem second_domain_refused :
    checkedAfter (SnoopFilter.doubleRequest 64) bothMiss (sendMiss 1) = some true ∧
    checkedAfter (SnoopFilter.notHolder 64) bothHold (.sendWrite 0 false) = some true ∧
    ¬ Runs.Along (step oneBlock (.guarded 0) (0 : Fin 1)) (ChecksPass oneBlock (.guarded 0) 0)
      (start ()) (bothMiss ++ [sendMiss 1]) ∧
    ¬ Runs.Along (step oneBlock (.guarded 0) (0 : Fin 1)) (ChecksPass oneBlock (.guarded 0) 0)
      (start ()) (bothHold ++ [.sendWrite 0 false]) := by
  have double : checkedAfter (SnoopFilter.doubleRequest 64) bothMiss (sendMiss 1) = some true := by
    decide
  have missing : checkedAfter (SnoopFilter.notHolder 64) bothHold (.sendWrite 0 false) =
      some true := by
    decide
  exact ⟨double, missing, checks_fail_of_checkedAfter (.inl double),
    checks_fail_of_checkedAfter (.inr missing)⟩

end FilterPort

end RasCache.Mem
