import RasCache.Mem.CallTrace
import RasCache.Mem.Line

/-!
# Which entry is sent next

Model of `getNextQueueEntry` (`mem/cache/base.cc`) over the queues of a cache.
The entries are ordered by the running counter of the cache: an MSHR by its first
target when it was allocated or its deferred targets moved up, a write by the
number that was next when it was allocated. Which entries the ready lists offer is
left to the environment.
-/
namespace RasCache.Mem

variable {R : Type}

/-- A cache with the order numbers of its entries. An MSHR has its `id`, unless
`mshrOrders` says otherwise. -/
structure SendQueues (R : Type) where
  cache : Cache R
  mshrOrders : List (Nat × Nat) := []
  writeOrders : List Nat := []

/-- What the ready lists offer: the MSHR and the write that are ready first, and
the entry of the other queue that `findPending` returns. -/
structure Offer where
  miss : Option Nat := none
  write : Option Nat := none
  conflict : Option Nat := none
deriving Repr, DecidableEq

/-- The entry to send, or the write at a position. -/
inductive NextEntry where
  | miss (id : Nat)
  | write (i : Nat)
deriving Repr, DecidableEq

/-- What can happen to the cache. -/
inductive SendQueuesEvent where
  /-- Anything but a send. -/
  | cache (e : CacheEvent)
  | send (offer : Offer) (pendingModifiedResp : Bool) (above : Packet → Bool)
  /-- A prefetch is drawn, and its MSHR is sent at once. -/
  | fetch (line : LineKey) (pendingModifiedResp : Bool) (above : Packet → Bool)

namespace SendQueues

variable (rp : ReplacementPolicy R) (cfg : CacheParams) (sizes : QueueParams)

/-! ### Order numbers -/

def mshrOrder (s : SendQueues R) (id : Nat) : Nat := (s.mshrOrders.lookup id).getD id

/-- `promoteDeferredTargets` gives the MSHR the number of its new first target. -/
def promoted (after : Cache R) (id : Nat) (orders : List (Nat × Nat)) : List (Nat × Nat) :=
  match (after.findId id).bind fun e => e.mshr.targets.list.head? with
  | some front => (id, front.order) :: orders
  | none => orders

def mshrOrdersAfter (before : Cache R) (e : CacheEvent) (after : Cache R)
    (orders : List (Nat × Nat)) : List (Nat × Nat) :=
  match e with
  | .recvTimingResp id _ _ _ => promoted after id orders
  | .squashPrefetch id =>
    -- while another target is left, the deferred ones stay where they are
    if (before.findId id).any fun e => decide (e.mshr.targets.list.length = 1) then
      promoted after id orders
    else orders
  | _ => orders

/-- The numbers after a stage in which the first write of the line may be dropped
and others may be allocated. -/
def stageOrders (before after : Cache R) (key : LineKey) (number : Nat)
    (orders : List Nat) : List Nat :=
  if after.writeBuffer.length < before.writeBuffer.length then
    orders.eraseIdx (before.writeBuffer.findIdx (Cache.seen cfg key))
  else
    orders ++ List.replicate (after.writeBuffer.length - before.writeBuffer.length) number

def writeOrdersAfter (before : Cache R) (e : CacheEvent) (after : Cache R) (orders : List Nat) :
    List Nat :=
  match e with
  | .recvTimingReq pkt tick _ =>
    let found := before.accessed rp cfg pkt tick
    stageOrders cfg found after pkt.rawLine before.order
      (stageOrders cfg before found pkt.rawLine before.order orders)
  | .recvTimingSnoopReq pkt _ =>
    let key := pkt.line cfg.blkSize
    let snooped := before.writesSnooped cfg pkt
    -- the snoop has drawn a number of its own
    stageOrders cfg snooped after key after.order
      (stageOrders cfg before snooped key after.order orders)
  | .sendWriteQueuePacket i => orders.eraseIdx i
  | _ => orders ++ List.replicate
    (after.writeBuffer.length - before.writeBuffer.length) before.order

/-! ### The choice -/

/-- The MSHRs that are not sent yet. -/
def pending (s : SendQueues R) : List MshrEntry := s.cache.mshrs.filter fun e => !e.mshr.inService

/-- The MSHRs that conflict with a write, cacheable or not. -/
def conflictingMisses (s : SendQueues R) (i : Nat) : List Nat :=
  match s.cache.writeBuffer[i]? with
  | some pkt =>
    (s.pending.filter fun e => decide (e.mshr.key = pkt.line cfg.blkSize)).map MshrEntry.id
  | none => []

/-- The writes that conflict with an MSHR. -/
def conflictingWrites (s : SendQueues R) (id : Nat) : List Nat :=
  match s.cache.findId id with
  | some e =>
    (List.range s.cache.writeBuffer.length).filter fun i =>
      (s.cache.writeBuffer[i]?).any fun pkt => decide (pkt.line cfg.blkSize = e.mshr.key)
  | none => []

/-- `findPending` can return this. -/
def picks (choice : Option Nat) (entries : List Nat) : Bool :=
  match choice with
  | some entry => entries.contains entry
  | none => entries.isEmpty

/-- `getNextQueueEntry`, without the prefetch; `none` also for an offer that the
ready lists cannot make. A full write buffer goes first, else misses do. -/
def getNextQueueEntry (s : SendQueues R) (offer : Offer) : Option NextEntry :=
  let full := decide (sizes.writeBuffers ≤ s.cache.writeBuffer.length)
  match offer.write.filter (fun _ => full || offer.miss.isNone), offer.miss with
  | some i, _ =>
    if picks offer.conflict (s.conflictingMisses cfg i) then
      match offer.conflict with
      -- only a miss that came before the write goes first
      | some id =>
        if s.mshrOrder id < s.writeOrders.getD i 0 then some (.miss id) else some (.write i)
      | none => some (.write i)
    else none
  | none, some id =>
    if picks offer.conflict (s.conflictingWrites cfg id) then
      match offer.conflict with
      -- the write goes first, whichever came first
      | some i => some (.write i)
      | none => some (.miss id)
    else none
  | none, none => none

/-- The ready lists hold pending entries only. -/
def offers (s : SendQueues R) (offer : Offer) : Bool :=
  (offer.miss.all fun id => (s.pending.map MshrEntry.id).contains id) &&
    offer.write.all fun i => decide (i < s.cache.writeBuffer.length)

/-! ### Steps -/

/-- The cache handles the event. -/
def act (s : SendQueues R) (e : CacheEvent) : Option (SendQueues R) :=
  (s.cache.step rp cfg e).map fun after =>
    { cache := after
      mshrOrders := mshrOrdersAfter s.cache e after s.mshrOrders
      writeOrders := writeOrdersAfter rp cfg s.cache e after s.writeOrders }

/-- The event comes from outside. A response is for the line of its MSHR. -/
def arrives (s : SendQueues R) : CacheEvent → Bool
  | .sendMSHRQueuePacket _ _ _ | .sendWriteQueuePacket _ => false
  | .recvTimingResp id pkt _ _ =>
    (s.cache.findId id).all fun e => decide (e.mshr.key = pkt.line cfg.blkSize)
  | _ => true

def NextEntry.event (pendingModifiedResp : Bool) (above : Packet → Bool) : NextEntry → CacheEvent
  | .miss id => .sendMSHRQueuePacket id pendingModifiedResp above
  | .write i => .sendWriteQueuePacket i

def step (s : SendQueues R) : SendQueuesEvent → Option (SendQueues R)
  | .cache e => if s.arrives cfg e then s.act rp cfg e else none
  | .send offer pendingModifiedResp above =>
    if s.offers offer then
      (s.getNextQueueEntry cfg sizes offer).bind fun next =>
        s.act rp cfg (NextEntry.event pendingModifiedResp above next)
    else none
  | .fetch line pendingModifiedResp above =>
    (s.act rp cfg (.issuePrefetch line)).bind fun t =>
      if s.cache.mshrs.length < t.cache.mshrs.length then
        t.act rp cfg (.sendMSHRQueuePacket s.cache.order pendingModifiedResp above)
      else some t

def start (repl : R) : SendQueues R := { cache := .empty repl }

variable {s : SendQueues R}

theorem act_cache {t : SendQueues R} {e : CacheEvent} (acted : s.act rp cfg e = some t) :
    ∃ sent, s.cache.handle rp cfg e = .ok (t.cache, sent) := by
  obtain ⟨after, taken, rfl⟩ := Option.map_eq_some_iff.mp acted
  exact Cache.step_some_iff.mp taken

/-- An MSHR is chosen when no write of its line waits, or when it came before the
write whose turn it is. -/
theorem getNextQueueEntry_miss {offer : Offer} {id : Nat}
    (chosen : s.getNextQueueEntry cfg sizes offer = some (.miss id)) :
    s.conflictingWrites cfg id = [] ∨ offer.conflict = some id ∧
      ∃ i, offer.write = some i ∧ s.mshrOrder id < s.writeOrders.getD i 0 := by
  unfold getNextQueueEntry at chosen
  dsimp only at chosen
  split at chosen
  next i turn =>
    have write := (Option.filter_eq_some_iff.mp turn).1
    split at chosen
    · split at chosen
      next conflict =>
        split at chosen <;> cases chosen
        -- it is the turn of the write, and only an older miss for its line goes first
        next older => exact .inr ⟨conflict, i, write, older⟩
      next => cases chosen
    · cases chosen
  next =>
    split at chosen
    next picked =>
      split at chosen
      · cases chosen
      -- a miss goes first only with no write of its line in front
      next free =>
        cases chosen
        rw [free] at picked
        exact .inl (List.isEmpty_iff.mp picked)
    next => cases chosen
  next => cases chosen

end SendQueues

end RasCache.Mem
