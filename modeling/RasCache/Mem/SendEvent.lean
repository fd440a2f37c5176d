import RasCache.Foundation.KeyedLists
import RasCache.Foundation.Runs
import RasCache.Mem.QueueCalls
import RasCache.Mem.Tags

/-!
# The send event and the ticks of history-buffer fetches

Model of the request side of the memory port in time: the ready lists of the MSHR
queue and of the write buffer (`mem/cache/queue.hh`), `getNextQueueEntry` and
`nextQueueReadyTime` (`mem/cache/base.cc`), the send event of
`CacheReqPacketQueue` and `PacketQueue`, and `SHB::nextPrefetchReadyTime` in
constant mode. A call of the cache appears as what it does to the queues and to
the event; which entries a request needs, whether a send is refused and when a
retry comes is left to the environment.
-/
namespace RasCache.Mem

/-- What the ready lists compare of a `QueueEntry`. -/
structure QueueEntry where
  line : LineKey
  readyTime : Nat
  order : Nat
deriving Repr, DecidableEq

namespace QueueEntry

/-- The loop of `addToReadyList`: before the first entry that is ready later. -/
def insertReady (entry : QueueEntry) : List QueueEntry → List QueueEntry
  | [] => [entry]
  | first :: rest =>
    if entry.readyTime < first.readyTime then entry :: first :: rest
    else first :: insertReady entry rest

/-- `addToReadyList`. -/
def addToReadyList (list : List QueueEntry) (entry : QueueEntry) : List QueueEntry :=
  match list.getLast? with
  | none => [entry]
  | some last =>
    if last.readyTime ≤ entry.readyTime then list ++ [entry] else entry.insertReady list

/-- The entry `getNext` returns. -/
def getNext (list : List QueueEntry) (tick : Nat) : Option QueueEntry :=
  list.head?.filter fun entry => decide (entry.readyTime ≤ tick)

/-- `nextReadyTime`; `none` is `MaxTick`. -/
def nextReadyTime (list : List QueueEntry) : Option Nat := list.head?.map QueueEntry.readyTime

/-- The entries stand in the order of their ready times. -/
def Sorted (list : List QueueEntry) : Prop :=
  list.Pairwise fun first second => first.readyTime ≤ second.readyTime

theorem insertReady_eq (entry : QueueEntry) (list : List QueueEntry) : entry.insertReady list =
      list.orderedInsert (fun first second => first.readyTime < second.readyTime) entry := by
  induction list with
  | nil => rfl
  | cons _ _ ih => simp only [insertReady, ih, List.orderedInsert_cons]

theorem addToReadyList_eq (list : List QueueEntry) (entry : QueueEntry) :
    addToReadyList list entry = KeyedLists.add readyTime list entry := by
  rw [addToReadyList, KeyedLists.add, insertReady_eq]
  cases list.getLast? <;> rfl

variable {entry : QueueEntry} {tick : Nat}

theorem mem_addToReadyList {list : List QueueEntry} {other : QueueEntry} :
    other ∈ addToReadyList list entry ↔ other = entry ∨ other ∈ list := by
  rw [addToReadyList_eq]
  exact KeyedLists.mem_add readyTime list entry other

variable {list : List QueueEntry}

theorem addToReadyList_sorted (entry : QueueEntry) (sorted : Sorted list) :
    Sorted (addToReadyList list entry) := by
  rw [addToReadyList_eq]
  exact KeyedLists.Sorted.add sorted entry

/-- The first entry of a sorted list is not ready only when none is. -/
theorem getNext_none (sorted : Sorted list) (idle : getNext list tick = none)
    (mem : entry ∈ list) : tick < entry.readyTime := by
  cases starts : list.head? with
  | none =>
    rw [List.head?_eq_none_iff.mp starts] at mem
    cases mem
  | some first =>
    have late : tick < first.readyTime := by
      simpa [getNext, starts] using idle
    exact Nat.lt_of_lt_of_le late (KeyedLists.Sorted.head_le sorted starts entry mem)

theorem getNext_some (next : getNext list tick = some entry) :
    entry ∈ list ∧ entry.readyTime ≤ tick := by
  obtain ⟨first, ready⟩ := Option.filter_eq_some_iff.mp next
  exact ⟨List.mem_of_head? first, by simpa using ready⟩

end QueueEntry

/-- The clock of the prefetcher and of the cache, and the sizes of the queues. -/
structure PortParams where
  issueInterval : Nat
  clockPeriod : Nat
  interval_pos : 1 ≤ issueInterval
  period_pos : 1 ≤ clockPeriod
  mshrs : Nat
  demandMshrReserve : Nat
  writeBuffers : Nat
deriving Repr

def PortParams.issueTick (cfg : PortParams) : Nat := cfg.issueInterval * cfg.clockPeriod

/-- The memory port and the queues it sends from. `drawn` is the ticks at which
`getPacket` was called, the last one first. -/
structure SendPort where
  curTick : Nat := 0
  sendEvent : Option Nat := none
  waitingOnRetry : Bool := false
  misses : List QueueEntry := []
  writes : List QueueEntry := []
  inService : Nat := 0
  blocked : Bool := false
  order : Nat := 0
  drawn : List Nat := []
deriving Repr, DecidableEq

/-- What the handling of a packet does to the queues. -/
inductive QueueOp where
  | allocateMissBuffer (line : LineKey) (time : Nat)
  | allocateWriteBuffer (line : LineKey) (time : Nat)
  /-- A queued writeback is dropped: a snoop invalidates it, or a writeback from
  above replaces it. -/
  | discardWrite (i : Nat)
  | setBlocked (blocked : Bool)
deriving Repr, DecidableEq

/-- What becomes of the MSHR of a response. -/
inductive Retired where
  /-- Its deferred targets are requested next, at the ready time of the first. -/
  | promoted (line : LineKey) (order targetReady payloadDelay : Nat)
  | deallocated
deriving Repr, DecidableEq

/-- What becomes of the entry that is sent. -/
inductive SendResult where
  | sent (ops : List QueueOp)
  | refused
  /-- The write allocator holds the MSHR back. -/
  | delayed (ticks : Nat)
  /-- A fetch that a cache above makes pointless, and its MSHR with it. -/
  | squashed
  /-- The same, but another target keeps the MSHR. -/
  | popped
  /-- The same, but deferred targets keep the MSHR, at the ready time of the
  first. -/
  | repromoted (targetReady : Nat)
deriving Repr, DecidableEq

/-- The environment of one call of `sendDeferredPacket`: the line of a drawn
packet that opens an MSHR, the ready time of a conflicting snoop response, and
the send itself. -/
structure Attempt where
  fetch : Option LineKey := none
  conflict : Option Nat := none
  result : SendResult := .sent []
deriving Repr, DecidableEq

inductive PortEvent where
  | advance (tick : Nat)
  | recvTimingReq (ops : List QueueOp)
  | recvTimingResp (first : List QueueOp) (retired : Retired) (last : List QueueOp)
  | recvTimingSnoopReq (ops : List QueueOp)
  | processSendEvent (attempt : Attempt)
  | retry (attempt : Attempt)
deriving Repr, DecidableEq

/-- An entry of one of the two ready lists. -/
inductive QueueRef where
  | miss (i : Nat)
  | write (i : Nat)
deriving Repr, DecidableEq

namespace SendPort

open QueueEntry

variable (cfg : PortParams)

/-- `SHB::nextPrefetchReadyTime` in constant mode. -/
def nextPrefetchReadyTime (s : SendPort) : Nat :=
  s.curTick - s.curTick % cfg.issueTick + cfg.issueTick

/-- `clockEdge()`. -/
def clockEdge (s : SendPort) : Nat :=
  (s.curTick + cfg.clockPeriod - 1) / cfg.clockPeriod * cfg.clockPeriod

/-- `PacketQueue::schedSendEvent`. -/
def schedSendEvent (s : SendPort) (time : Nat) : SendPort :=
  -- the retry sends what is queued by then
  if s.waitingOnRetry then s
  else
    let time := max time (s.curTick + 1)
    match s.sendEvent with
    | none => { s with sendEvent := some time }
    -- an event that is scheduled is moved forward, never back
    | some scheduled => { s with sendEvent := some (min time scheduled) }

def canPrefetch (s : SendPort) : Bool :=
  mshrsCanPrefetch cfg.mshrs cfg.demandMshrReserve (s.misses.length + s.inService)

def writeBufferFull (s : SendPort) : Bool := decide (cfg.writeBuffers ≤ s.writes.length)

/-- `nextQueueReadyTime`. -/
def nextQueueReadyTime (s : SendPort) : Nat :=
  let ready := [nextReadyTime s.misses, nextReadyTime s.writes].filterMap id
  ready.foldl min (s.nextPrefetchReadyTime cfg)

def allocateMiss (s : SendPort) (line : LineKey) (time : Nat) : SendPort :=
  { s with misses := addToReadyList s.misses ⟨line, time, s.order⟩, order := s.order + 1 }

def applyOp (s : SendPort) : QueueOp → Option SendPort
  | .allocateMissBuffer line time => some ((s.allocateMiss line time).schedSendEvent time)
  | .allocateWriteBuffer line time =>
    some (({ s with
      writes := addToReadyList s.writes ⟨line, time, s.order⟩
      order := s.order + 1 } : SendPort).schedSendEvent time)
  | .discardWrite i =>
    if i < s.writes.length then some { s with writes := s.writes.eraseIdx i } else none
  | .setBlocked blocked => some { s with blocked }

def applyOps (s : SendPort) (ops : List QueueOp) : Option SendPort := Runs.run applyOp s ops

/-- The end of `recvTimingResp` for the MSHR. -/
def retire (s : SendPort) : Retired → Option SendPort
  | .promoted line order targetReady payloadDelay =>
    if s.inService = 0 then none
    else
      let s := { s with
        inService := s.inService - 1
        misses := addToReadyList s.misses ⟨line, max s.curTick targetReady, order⟩ }
      some (s.schedSendEvent (s.clockEdge cfg + payloadDelay))
  | .deallocated =>
    if s.inService = 0 then none
    else
      let s := { s with inService := s.inService - 1 }
      if s.canPrefetch cfg && !s.blocked then
        some (s.schedSendEvent (max (s.nextPrefetchReadyTime cfg) (s.clockEdge cfg)))
      else some s

/-- `getNextQueueEntry`, without the fetch. A full write buffer goes first, else
misses do; an earlier entry of the other queue for the same line goes before. -/
def nextQueueEntry (s : SendPort) : Option QueueRef :=
  let miss := getNext s.misses s.curTick
  let write := (getNext s.writes s.curTick).filter fun _ => s.writeBufferFull cfg || miss.isNone
  match write, miss with
  | some write, _ =>
    match s.misses.findIdx? fun entry => decide (entry.line = write.line) with
    -- only a miss that came before the write goes first
    | some i =>
      if (s.misses[i]?).any fun conflict => decide (conflict.order < write.order) then
        some (.miss i)
      else some (.write 0)
    | none => some (.write 0)
  | none, some miss =>
    match s.writes.findIdx? fun entry => decide (entry.line = miss.line) with
    -- the writeback goes first, whichever came first and ready or not
    | some i => some (.write i)
    | none => some (.miss 0)
  | none, none => none

/-- `getPacket` is called. -/
def draws (s : SendPort) : Bool :=
  (s.nextQueueEntry cfg).isNone && s.canPrefetch cfg && !s.blocked

/-- `sendPacket` and what follows it, for the entry chosen. -/
def sendEntry (s : SendPort) (ref : QueueRef) : SendResult → Option SendPort
  | .refused => some { s with waitingOnRetry := true }
  | .sent ops =>
    match ref with
    | .miss i =>
      ({ s with misses := s.misses.eraseIdx i, inService := s.inService + 1 } : SendPort).applyOps
        ops
    | .write i => ({ s with writes := s.writes.eraseIdx i } : SendPort).applyOps ops
  | .delayed ticks =>
    match ref with
    | .miss i =>
      (s.misses[i]?).bind fun entry =>
        if s.curTick < entry.readyTime then none
        else
          some { s with
            misses := s.misses.set i { entry with readyTime := s.curTick + ticks } }
    | .write _ => none
  | .squashed =>
    match ref with
    | .miss i => some { s with misses := s.misses.eraseIdx i }
    | .write _ => none
  | .popped =>
    match ref with
    | .miss _ => some s
    | .write _ => none
  | .repromoted targetReady =>
    match ref with
    | .miss i =>
      (s.misses[i]?).map fun entry =>
        { s with misses := s.misses.set i { entry with readyTime := max s.curTick targetReady } }
    | .write _ => none

/-- The end of `sendDeferredPacket`. -/
def reschedule (s : SendPort) : SendPort :=
  if s.waitingOnRetry then s else s.schedSendEvent (s.nextQueueReadyTime cfg)

/-- `sendDeferredPacket` for a chosen entry: a conflicting snoop response goes
first. -/
def sendChosen (s : SendPort) (ref : QueueRef) (attempt : Attempt) : Option SendPort :=
  match attempt.conflict with
  | some time => some (s.schedSendEvent time)
  | none => (s.sendEntry ref attempt.result).map (reschedule cfg)

/-- `sendDeferredPacket`. -/
def sendDeferredPacket (s : SendPort) (attempt : Attempt) : Option SendPort :=
  match s.nextQueueEntry cfg with
  | some ref => s.sendChosen cfg ref attempt
  | none =>
    if s.draws cfg then
      let s := { s with drawn := s.curTick :: s.drawn }
      match attempt.fetch with
      | some line =>
        let fetched := s.allocateMiss line s.curTick
        ((fetched.misses).findIdx? fun entry => decide (entry.order = s.order)).bind fun i =>
          fetched.sendChosen cfg (.miss i) attempt
      | none => some (s.reschedule cfg)
    else some (s.reschedule cfg)

def step (s : SendPort) : PortEvent → Option SendPort
  | .advance tick =>
    -- time does not pass a scheduled event
    if s.curTick < tick && (s.sendEvent.all fun scheduled => decide (tick ≤ scheduled)) then
      some { s with curTick := tick }
    else none
  | .recvTimingReq ops =>
    (s.applyOps ops).map fun s => s.schedSendEvent (s.nextPrefetchReadyTime cfg)
  | .recvTimingResp first retired last =>
    (s.applyOps first).bind fun s => (s.retire cfg retired).bind fun s => s.applyOps last
  | .recvTimingSnoopReq ops => s.applyOps ops
  | .processSendEvent attempt =>
    if s.sendEvent = some s.curTick && !s.waitingOnRetry then
      ({ s with sendEvent := none } : SendPort).sendDeferredPacket cfg attempt
    else none
  | .retry attempt =>
    if s.waitingOnRetry then
      ({ s with waitingOnRetry := false } : SendPort).sendDeferredPacket cfg attempt
    else none

/-- Every draw so far was at a multiple of the issue interval. -/
def OnTime (s : SendPort) : Prop := ∀ tick ∈ s.drawn, cfg.issueTick ∣ tick

/-- A send event or retry at another tick finds a miss or a write to send, or no
room for a fetch. -/
def Busy (s : SendPort) (e : PortEvent) : Prop :=
  ∀ attempt, e = .processSendEvent attempt ∨ e = .retry attempt → (s.step cfg e).isSome = true →
    cfg.issueTick ∣ s.curTick ∨ s.draws cfg = false

/-! ### When a packet is drawn -/

variable {cfg}

/-- Neither the tick nor the draws have changed. -/
structure Undrawn (s t : SendPort) : Prop where
  curTick : t.curTick = s.curTick
  drawn : t.drawn = s.drawn

theorem Undrawn.refl (s : SendPort) : Undrawn s s := ⟨rfl, rfl⟩

variable {s t : SendPort} {ref : QueueRef} {u : SendPort}

theorem Undrawn.trans (one : Undrawn s t) (two : Undrawn t u) : Undrawn s u :=
  ⟨two.curTick.trans one.curTick, two.drawn.trans one.drawn⟩

theorem Undrawn.after (later : Undrawn t u) (tick : t.curTick = s.curTick)
    (drawn : t.drawn = s.drawn) : Undrawn s u :=
  ⟨later.curTick.trans tick, later.drawn.trans drawn⟩

theorem schedSendEvent_undrawn (s : SendPort) (time : Nat) : Undrawn s (s.schedSendEvent time) := by
  unfold schedSendEvent
  split
  · exact .refl s
  · dsimp only
    split <;> exact ⟨rfl, rfl⟩

theorem applyOp_undrawn {op : QueueOp} (applied : s.applyOp op = some t) : Undrawn s t := by
  cases op with
  | allocateMissBuffer =>
    cases applied
    exact .after (schedSendEvent_undrawn _ _) rfl rfl
  | allocateWriteBuffer =>
    cases applied
    exact .after (schedSendEvent_undrawn _ _) rfl rfl
  | discardWrite =>
    simp only [applyOp] at applied
    split at applied
    · cases applied
      exact ⟨rfl, rfl⟩
    · cases applied
  | setBlocked =>
    cases applied
    exact ⟨rfl, rfl⟩

theorem applyOps_undrawn (s : SendPort) {ops : List QueueOp} (applied : s.applyOps ops = some t) :
    Undrawn s t := by
  induction ops generalizing s with
  | nil =>
    cases applied
    exact .refl _
  | cons _ _ ih =>
    obtain ⟨u, first, rest⟩ := Runs.run_cons_iff.mp applied
    exact (applyOp_undrawn first).trans (ih u rest)

theorem retire_undrawn {retired : Retired} (done : s.retire cfg retired = some t) :
    Undrawn s t := by
  cases retired with
  | promoted =>
    simp only [retire] at done
    split at done
    · cases done
    · cases done
      exact .after (schedSendEvent_undrawn _ _) rfl rfl
  | deallocated =>
    simp only [retire] at done
    split at done
    · cases done
    · split at done
      · cases done
        exact .after (schedSendEvent_undrawn _ _) rfl rfl
      · cases done
        exact ⟨rfl, rfl⟩

theorem reschedule_undrawn (s : SendPort) : Undrawn s (s.reschedule cfg) := by
  unfold reschedule
  split
  · exact .refl s
  · exact schedSendEvent_undrawn _ _

theorem sendEntry_undrawn {result : SendResult} (done : s.sendEntry ref result = some t) :
    Undrawn s t := by
  cases result with
  | refused =>
    cases done
    exact ⟨rfl, rfl⟩
  | sent =>
    cases ref with
    | miss => exact .after (applyOps_undrawn _ done) rfl rfl
    | write => exact .after (applyOps_undrawn _ done) rfl rfl
  | delayed =>
    -- only a miss can be delayed, squashed or promoted again
    cases ref with
    | miss =>
      obtain ⟨_, _, done⟩ := Option.bind_eq_some_iff.mp done
      split at done
      · cases done
      · cases done
        exact ⟨rfl, rfl⟩
    | write => cases done
  | squashed =>
    cases ref with
    | miss =>
      cases done
      exact ⟨rfl, rfl⟩
    | write => cases done
  | popped =>
    cases ref with
    | miss =>
      cases done
      exact .refl _
    | write => cases done
  | repromoted =>
    cases ref with
    | miss =>
      obtain ⟨_, _, rfl⟩ := Option.map_eq_some_iff.mp done
      exact ⟨rfl, rfl⟩
    | write => cases done

theorem sendChosen_undrawn {attempt : Attempt} (done : s.sendChosen cfg ref attempt = some t) :
    Undrawn s t := by
  unfold sendChosen at done
  split at done
  · cases done
    exact schedSendEvent_undrawn _ _
  · obtain ⟨u, sent, rfl⟩ := Option.map_eq_some_iff.mp done
    exact (sendEntry_undrawn sent).trans (reschedule_undrawn u)

theorem sendDeferredPacket_drawn {attempt : Attempt}
    (done : s.sendDeferredPacket cfg attempt = some t) :
    t.drawn = if s.draws cfg then s.curTick :: s.drawn else s.drawn := by
  unfold sendDeferredPacket at done
  split at done
  next chosen =>
    -- an entry is chosen, so the prefetcher is not asked
    have idle : s.draws cfg = false := by simp [draws, chosen]
    rw [idle]
    exact (sendChosen_undrawn done).drawn
  next =>
    split at done
    next drawn =>
      rw [if_pos drawn]
      dsimp only at done
      split at done
      -- the prefetcher has been asked, whatever comes of it
      next =>
        obtain ⟨_, _, done⟩ := Option.bind_eq_some_iff.mp done
        exact (sendChosen_undrawn done).drawn
      next =>
        cases done
        exact (reschedule_undrawn _).drawn
    next idle =>
      cases done
      rw [if_neg idle]
      exact (reschedule_undrawn s).drawn

/-- The event is a send attempt. -/
def Attempts (e : PortEvent) : Prop :=
  ∃ attempt, e = .processSendEvent attempt ∨ e = .retry attempt

theorem step_drawn {e : PortEvent} (taken : s.step cfg e = some t) :
    (Attempts e ∧ t.drawn = if s.draws cfg then s.curTick :: s.drawn else s.drawn) ∨
      (¬ Attempts e ∧ t.drawn = s.drawn) := by
  have other (e : PortEvent) (plain : ∀ attempt, e ≠ .processSendEvent attempt ∧
    e ≠ .retry attempt) :
      ¬ Attempts e := by
    rintro ⟨attempt, send | again⟩
    · exact (plain attempt).1 send
    · exact (plain attempt).2 again
  cases e with
  -- only the two events that try to send draw
  | advance =>
    simp only [step] at taken
    split at taken
    · cases taken
      exact .inr ⟨other _ fun _ => ⟨nofun, nofun⟩, rfl⟩
    · cases taken
  | recvTimingReq =>
    obtain ⟨_, applied, rfl⟩ := Option.map_eq_some_iff.mp taken
    refine .inr ⟨other _ fun _ => ⟨nofun, nofun⟩, ?_⟩
    exact ((applyOps_undrawn s applied).trans (schedSendEvent_undrawn _ _)).drawn
  | recvTimingResp =>
    obtain ⟨_, applied, taken⟩ := Option.bind_eq_some_iff.mp taken
    obtain ⟨v, done, applied'⟩ := Option.bind_eq_some_iff.mp taken
    refine .inr ⟨other _ fun _ => ⟨nofun, nofun⟩, ?_⟩
    exact (((applyOps_undrawn s applied).trans (retire_undrawn done)).trans
      (applyOps_undrawn v applied')).drawn
  | recvTimingSnoopReq =>
    exact .inr ⟨other _ fun _ => ⟨nofun, nofun⟩, (applyOps_undrawn s taken).drawn⟩
  | processSendEvent attempt =>
    simp only [step] at taken
    split at taken
    · have now := sendDeferredPacket_drawn taken
      exact .inl ⟨⟨attempt, .inl rfl⟩, now⟩
    · cases taken
  | retry attempt =>
    simp only [step] at taken
    split at taken
    · have now := sendDeferredPacket_drawn taken
      exact .inl ⟨⟨attempt, .inr rfl⟩, now⟩
    · cases taken

/-- A step keeps the draws on time exactly when no attempt draws at another tick. -/
theorem step_onTime_iff (e : PortEvent) (onTime : s.OnTime cfg) :
    (∀ t, s.step cfg e = some t → t.OnTime cfg) ↔ s.Busy cfg e := by
  constructor
  · intro kept attempt event possible
    obtain ⟨t, taken⟩ := Option.isSome_iff_exists.mp possible
    cases drawn : s.draws cfg with
    | false => exact .inr rfl
    | true =>
      rcases step_drawn taken with ⟨_, now⟩ | ⟨plain, _⟩
      · -- a draw of this step is one of the recorded ones
        rw [drawn, if_pos rfl] at now
        exact .inl (kept t taken s.curTick (by simp [now]))
      · exact absurd ⟨attempt, event⟩ plain
  · intro busy _ taken tick mem
    rcases step_drawn taken with ⟨⟨attempt, event⟩, now⟩ | ⟨_, now⟩
    · rw [now] at mem
      split at mem
      next drawn =>
        rcases List.mem_cons.mp mem with rfl | old
        · rcases busy attempt event (by simp [taken]) with divides | idle
          · exact divides
          · rw [drawn] at idle
            cases idle
        · exact onTime tick old
      next => exact onTime tick mem
    · rw [now] at mem
      exact onTime tick mem

/-! ### Sends that come for a reason -/

/-- An entry is ready at the tick. -/
def Covered (s : SendPort) (tick : Nat) : Prop :=
  (∃ entry ∈ s.misses, entry.readyTime ≤ tick) ∨ ∃ entry ∈ s.writes, entry.readyTime ≤ tick

variable (cfg) in
/-- A send event at another tick than a multiple of the issue interval, and a
retry that is waited for, have an entry to send. -/
structure Armed (s : SendPort) : Prop where
  misses : Sorted s.misses
  writes : Sorted s.writes
  event : ∀ tick, s.sendEvent = some tick → cfg.issueTick ∣ tick ∨ s.Covered tick
  retry : s.waitingOnRetry = true → s.sendEvent = none ∧ s.Covered s.curTick

theorem nextQueueEntry_none (none : s.nextQueueEntry cfg = none) :
    getNext s.misses s.curTick = .none ∧ getNext s.writes s.curTick = .none := by
  unfold nextQueueEntry at none
  dsimp only at none
  split at none
  next => split at none <;> (try split at none) <;> cases none
  next => split at none <;> cases none
  next write miss =>
    rw [miss] at write
    exact ⟨miss, Option.eq_none_iff_forall_ne_some.mpr (by simpa using write)⟩

theorem nextQueueEntry_some (chosen : s.nextQueueEntry cfg = some ref) : s.Covered s.curTick := by
  cases miss : getNext s.misses s.curTick with
  | some entry =>
    obtain ⟨mem, ready⟩ := getNext_some miss
    exact .inl ⟨entry, mem, ready⟩
  | none =>
    cases write : getNext s.writes s.curTick with
    | some entry =>
      obtain ⟨mem, ready⟩ := getNext_some write
      exact .inr ⟨entry, mem, ready⟩
    | none => simp [nextQueueEntry, miss, write] at chosen

/-- Where an entry is ready, nothing is drawn. -/
theorem Armed.undrawn (armed : s.Armed cfg) (covered : s.Covered s.curTick) :
    s.draws cfg = false := by
  rw [← Bool.not_eq_true]
  intro drawn
  simp only [draws, Bool.and_eq_true, Option.isNone_iff_eq_none] at drawn
  obtain ⟨miss, write⟩ := nextQueueEntry_none drawn.1.1
  rcases covered with ⟨entry, mem, ready⟩ | ⟨entry, mem, ready⟩
  · have late := getNext_none armed.misses miss mem
    omega
  · have late := getNext_none armed.writes write mem
    omega

theorem Covered.mono {first second : Nat} (covered : s.Covered first) (later : first ≤ second)
    (misses : ∀ entry ∈ s.misses, entry ∈ t.misses)
    (writes : ∀ entry ∈ s.writes, entry ∈ t.writes) : t.Covered second := by
  rcases covered with ⟨entry, mem, ready⟩ | ⟨entry, mem, ready⟩
  · exact .inl ⟨entry, misses entry mem, Nat.le_trans ready later⟩
  · exact .inr ⟨entry, writes entry mem, Nat.le_trans ready later⟩

theorem Armed.schedSendEvent (armed : s.Armed cfg) (time : Nat)
    (reason : cfg.issueTick ∣ max time (s.curTick + 1) ∨ s.Covered (max time (s.curTick + 1))) :
    (s.schedSendEvent time).Armed cfg := by
  unfold SendPort.schedSendEvent
  split
  next => exact armed
  next idle =>
    dsimp only
    split
    next =>
      refine ⟨armed.misses, armed.writes, ?_, fun waits => absurd waits idle⟩
      intro _ same
      cases same
      exact reason
    next scheduled found =>
      refine ⟨armed.misses, armed.writes, ?_, fun waits => absurd waits idle⟩
      intro _ same
      cases same
      -- whichever of the two comes first has its own reason
      rcases Nat.le_total (max time (s.curTick + 1)) scheduled with earlier | later
      · rw [Nat.min_eq_left earlier]
        exact reason
      · rw [Nat.min_eq_right later]
        exact armed.event scheduled found

variable (cfg) in
theorem nextPrefetchReadyTime_spec (s : SendPort) : cfg.issueTick ∣ s.nextPrefetchReadyTime cfg ∧
      s.curTick < s.nextPrefetchReadyTime cfg := by
  have positive : 0 < cfg.issueTick := Nat.mul_pos cfg.interval_pos cfg.period_pos
  have rest := Nat.mod_lt s.curTick positive
  constructor
  · exact Nat.dvd_add (Nat.dvd_sub_mod _) (Nat.dvd_refl _)
  · unfold nextPrefetchReadyTime
    have below := Nat.mod_le s.curTick cfg.issueTick
    omega

theorem Armed.schedPrefetch (armed : s.Armed cfg) :
    (s.schedSendEvent (s.nextPrefetchReadyTime cfg)).Armed cfg := by
  obtain ⟨divides, later⟩ := nextPrefetchReadyTime_spec cfg s
  apply armed.schedSendEvent
  rw [Nat.max_eq_left later]
  exact .inl divides

/-- The next clock edge does not come behind the next tick for a fetch. -/
theorem clockEdge_le (s : SendPort) : s.clockEdge cfg ≤ s.nextPrefetchReadyTime cfg := by
  obtain ⟨divides, _⟩ := nextPrefetchReadyTime_spec cfg s
  have period : cfg.clockPeriod ∣ s.nextPrefetchReadyTime cfg :=
    Nat.dvd_trans (Nat.dvd_mul_left _ _) divides
  have positive := cfg.period_pos
  generalize s.nextPrefetchReadyTime cfg = next at *
  obtain ⟨cycles, rfl⟩ := period
  unfold clockEdge
  rw [Nat.mul_comm cfg.clockPeriod cycles]
  apply Nat.mul_le_mul_right
  apply Nat.le_of_lt_succ
  rw [Nat.div_lt_iff_lt_mul positive, Nat.succ_mul, Nat.mul_comm cycles]
  omega

/-! ### Steps without a lost reason -/

variable (cfg)

/-- A writeback that is discarded is not what a pending send or retry waits for. -/
def Spares (s : SendPort) (op : QueueOp) : Prop :=
  ∀ i, op = .discardWrite i →
    (∀ tick, s.sendEvent = some tick → cfg.issueTick ∣ tick ∨
      ({ s with writes := s.writes.eraseIdx i } : SendPort).Covered tick) ∧
    (s.waitingOnRetry = true →
      ({ s with writes := s.writes.eraseIdx i } : SendPort).Covered s.curTick)

/-- Over all the queue operations of one call. -/
def OpsSpare (s : SendPort) (ops : List QueueOp) : Prop := Runs.Along applyOp (Spares cfg) s ops

/-- Deferred targets that are requested next are ready when the send is
scheduled. -/
def Prompt (s : SendPort) (retired : Retired) : Prop :=
  ∀ line order targetReady payloadDelay,
    retired = .promoted line order targetReady payloadDelay →
      targetReady ≤ s.clockEdge cfg + payloadDelay

/-- The MSHR that is sent is neither held back nor made to wait for deferred
targets. -/
def Direct (attempt : Attempt) : Prop :=
  (∀ ticks, attempt.result ≠ .delayed ticks) ∧ (∀ ready, attempt.result ≠ .repromoted ready) ∧
    ∀ ops, attempt.result = .sent ops → ∀ i, .discardWrite i ∉ ops

def Steady (s : SendPort) : PortEvent → Prop
  | .advance _ => True
  | .recvTimingReq ops => s.OpsSpare cfg ops
  | .recvTimingResp first retired last =>
    s.OpsSpare cfg first ∧ ∀ t, s.applyOps first = some t →
      t.Prompt cfg retired ∧ ∀ u, t.retire cfg retired = some u → u.OpsSpare cfg last
  | .recvTimingSnoopReq ops => s.OpsSpare cfg ops
  | .processSendEvent attempt => Direct attempt
  | .retry attempt => Direct attempt

variable {cfg}

section

variable (armed : s.Armed cfg)
include armed

theorem Armed.grow (misses : Sorted t.misses) (writes : Sorted t.writes)
    (missed : ∀ entry ∈ s.misses, entry ∈ t.misses)
    (written : ∀ entry ∈ s.writes, entry ∈ t.writes) (tick : t.curTick = s.curTick)
    (event : t.sendEvent = s.sendEvent) (waits : t.waitingOnRetry = s.waitingOnRetry) :
    t.Armed cfg := by
  refine ⟨misses, writes, ?_, ?_⟩
  · intro when scheduled
    rw [event] at scheduled
    rcases armed.event when scheduled with divides | covered
    · exact .inl divides
    · exact .inr (covered.mono (Nat.le_refl _) missed written)
  · intro waiting
    rw [waits] at waiting
    obtain ⟨unscheduled, covered⟩ := armed.retry waiting
    rw [event, tick]
    exact ⟨unscheduled, covered.mono (Nat.le_refl _) missed written⟩

theorem Armed.applyOp (op : QueueOp) (spares : s.Spares cfg op)
    (applied : s.applyOp op = some t) : t.Armed cfg := by
  cases op with
  | allocateMissBuffer line time =>
    cases applied
    have added : (s.allocateMiss line time).Armed cfg := by
      refine armed.grow (addToReadyList_sorted _ armed.misses) armed.writes ?_ (fun _ mem => mem)
        rfl rfl rfl
      exact fun entry mem => mem_addToReadyList.mpr (.inr mem)
    apply added.schedSendEvent
    exact .inr (.inl ⟨_, mem_addToReadyList.mpr (.inl rfl), Nat.le_max_left _ _⟩)
  | allocateWriteBuffer line time =>
    cases applied
    have added : ({ s with
        writes := addToReadyList s.writes ⟨line, time, s.order⟩
        order := s.order + 1 } : SendPort).Armed cfg := by
      refine armed.grow armed.misses (addToReadyList_sorted _ armed.writes) (fun _ mem => mem)
        ?_ rfl rfl rfl
      exact fun entry mem => mem_addToReadyList.mpr (.inr mem)
    apply added.schedSendEvent
    exact .inr (.inr ⟨_, mem_addToReadyList.mpr (.inl rfl), Nat.le_max_left _ _⟩)
  | discardWrite i =>
    -- the packet may be the one the retry is for
    obtain ⟨event, waits⟩ := spares i rfl
    simp only [SendPort.applyOp] at applied
    split at applied
    · cases applied
      refine ⟨armed.misses, armed.writes.sublist (List.eraseIdx_sublist _ _), event, ?_⟩
      exact fun waiting => ⟨(armed.retry waiting).1, waits waiting⟩
    · cases applied
  | setBlocked =>
    cases applied
    exact armed.grow armed.misses armed.writes (fun _ mem => mem) (fun _ mem => mem) rfl
      rfl rfl

theorem Armed.applyOps (ops : List QueueOp) (spares : s.OpsSpare cfg ops)
    (applied : s.applyOps ops = some t) : t.Armed cfg :=
  Runs.run_invariant (fun _ op _ armed spares applied => Armed.applyOp armed op spares applied)
    s t ops armed spares applied

theorem Armed.retire (retired : Retired) (prompt : s.Prompt cfg retired)
    (done : s.retire cfg retired = some t) : t.Armed cfg := by
  cases retired with
  | promoted line order targetReady payloadDelay =>
    simp only [SendPort.retire] at done
    split at done
    next => cases done
    next =>
      cases done
      -- without this the event could be earlier than the promoted target is ready
      have ready := prompt line order targetReady payloadDelay rfl
      have added : ({ s with
          inService := s.inService - 1
          misses := addToReadyList s.misses ⟨line, max s.curTick targetReady, order⟩ } :
            SendPort).Armed cfg := by
        refine armed.grow (addToReadyList_sorted _ armed.misses) armed.writes ?_
          (fun _ mem => mem) rfl rfl rfl
        exact fun entry mem => mem_addToReadyList.mpr (.inr mem)
      apply added.schedSendEvent
      refine .inr (.inl ⟨_, mem_addToReadyList.mpr (.inl rfl), ?_⟩)
      change max s.curTick targetReady ≤ max (s.clockEdge cfg + payloadDelay) (s.curTick + 1)
      omega
  | deallocated =>
    simp only [SendPort.retire] at done
    split at done
    next => cases done
    next =>
      -- the freed MSHR may make room for a prefetch
      have freed : ({ s with inService := s.inService - 1 } : SendPort).Armed cfg :=
        armed.grow armed.misses armed.writes (fun _ mem => mem) (fun _ mem => mem) rfl
          rfl rfl
      split at done
      next =>
        cases done
        rw [Nat.max_eq_left (clockEdge_le _)]
        exact freed.schedPrefetch
      next =>
        cases done
        exact freed

end

theorem Armed.idle (misses : Sorted s.misses) (writes : Sorted s.writes)
    (event : s.sendEvent = none) (waits : s.waitingOnRetry = false) : s.Armed cfg := by
  refine ⟨misses, writes, ?_, ?_⟩
  · intro _ scheduled
    rw [event] at scheduled
    cases scheduled
  · intro waiting
    rw [waits] at waiting
    cases waiting

theorem foldl_min_mem (list : List Nat) (first : Nat) :
    list.foldl min first = first ∨ list.foldl min first ∈ list := by
  induction list generalizing first with
  | nil => exact .inl rfl
  | cons next _ ih =>
    rw [List.foldl_cons]
    rcases ih (min first next) with same | mem
    · rw [same]
      rcases Nat.le_total first next with earlier | later
      · exact .inl (Nat.min_eq_left earlier)
      · rw [Nat.min_eq_right later]
        exact .inr List.mem_cons_self
    · exact .inr (List.mem_cons_of_mem _ mem)

theorem nextReadyTime_mem {list : List QueueEntry} {time : Nat}
    (next : nextReadyTime list = some time) : ∃ entry ∈ list, entry.readyTime ≤ time := by
  obtain ⟨entry, first, rfl⟩ := Option.map_eq_some_iff.mp next
  exact ⟨entry, List.mem_of_head? first, Nat.le_refl _⟩

variable (cfg) in
/-- The queues are next looked at when the first entry is ready or a fetch is
due. -/
theorem nextQueueReadyTime_reason (s : SendPort) :
    s.nextQueueReadyTime cfg = s.nextPrefetchReadyTime cfg ∨
      s.Covered (s.nextQueueReadyTime cfg) := by
  rcases foldl_min_mem ([nextReadyTime s.misses, nextReadyTime s.writes].filterMap id)
    (s.nextPrefetchReadyTime cfg) with fetch | mem
  · exact .inl fetch
  · obtain ⟨_, listed, next⟩ := List.mem_filterMap.mp mem
    rcases List.mem_pair.mp listed with rfl | rfl
    · exact .inr (.inl (nextReadyTime_mem next))
    · exact .inr (.inr (nextReadyTime_mem next))

theorem Armed.reschedule (armed : s.Armed cfg) : (s.reschedule cfg).Armed cfg := by
  unfold SendPort.reschedule
  split
  next => exact armed
  next =>
    rcases nextQueueReadyTime_reason cfg s with fetch | covered
    · rw [fetch]
      exact armed.schedPrefetch
    · apply armed.schedSendEvent
      exact .inr (covered.mono (Nat.le_max_left _ _) (fun _ mem => mem) (fun _ mem => mem))

theorem opsSpare_of_kept (s : SendPort) (ops : List QueueOp) (kept : ∀ i, .discardWrite i ∉ ops) :
    s.OpsSpare cfg ops := by
  induction ops generalizing s with
  | nil => trivial
  | cons _ _ ih =>
    refine ⟨fun i discards => ?_, fun t _ => ih t fun i mem => ?_⟩
    · exact absurd (discards ▸ List.mem_cons_self) (kept i)
    · exact kept i (List.mem_cons_of_mem _ mem)

section Send

variable (armed : s.Armed cfg) (event : s.sendEvent = none) (waits : s.waitingOnRetry = false)
  (covered : s.Covered s.curTick) (ref : QueueRef) (attempt : Attempt) (direct : Direct attempt)

include armed event waits covered direct

theorem Armed.sendEntry (done : s.sendEntry ref attempt.result = some t) : t.Armed cfg := by
  obtain ⟨undelayed, unpromoted, kept⟩ := direct
  -- the event has fired and there is no retry, so any list in order will do
  have without (i : Nat) : Sorted (s.misses.eraseIdx i) :=
    armed.misses.sublist (List.eraseIdx_sublist _ _)
  cases result : attempt.result with
  | refused =>
    rw [result] at done
    cases done
    exact ⟨armed.misses, armed.writes, armed.event, fun _ => ⟨event, covered⟩⟩
  | sent ops =>
    rw [result] at done
    cases ref with
    | miss i =>
      refine Armed.applyOps ?_ ops (opsSpare_of_kept _ ops (kept ops result)) done
      exact .idle (without i) armed.writes event waits
    | write =>
      refine Armed.applyOps ?_ ops (opsSpare_of_kept _ ops (kept ops result)) done
      exact .idle armed.misses (armed.writes.sublist (List.eraseIdx_sublist _ _)) event waits
  | delayed ticks => exact absurd result (undelayed ticks)
  | squashed =>
    rw [result] at done
    cases ref with
    | miss i =>
      cases done
      exact .idle (without i) armed.writes event waits
    | write => cases done
  | popped =>
    rw [result] at done
    cases ref with
    | miss =>
      cases done
      exact armed
    | write => cases done
  | repromoted ready => exact absurd result (unpromoted ready)

theorem Armed.sendChosen (done : s.sendChosen cfg ref attempt = some t) : t.Armed cfg := by
  unfold SendPort.sendChosen at done
  split at done
  next =>
    cases done
    -- the entry stays ready while the snoop response goes first
    apply armed.schedSendEvent
    exact .inr (covered.mono (by omega) (fun _ mem => mem) (fun _ mem => mem))
  next =>
    obtain ⟨_, sent, rfl⟩ := Option.map_eq_some_iff.mp done
    exact (armed.sendEntry event waits covered ref attempt direct sent).reschedule

end Send

theorem Armed.sendDeferredPacket (armed : s.Armed cfg) (event : s.sendEvent = none)
    (waits : s.waitingOnRetry = false) (attempt : Attempt) (direct : Direct attempt)
    (done : s.sendDeferredPacket cfg attempt = some t) : t.Armed cfg := by
  unfold SendPort.sendDeferredPacket at done
  split at done
  next ref chosen =>
    exact armed.sendChosen event waits (nextQueueEntry_some chosen) ref attempt direct done
  next =>
    -- asking the prefetcher changes neither queue
    have drawn : ({ s with drawn := s.curTick :: s.drawn } : SendPort).Armed cfg :=
      .idle armed.misses armed.writes event waits
    split at done
    next =>
      dsimp only at done
      split at done
      next line _ =>
        obtain ⟨i, _, done⟩ := Option.bind_eq_some_iff.mp done
        have fetched : (({ s with drawn := s.curTick :: s.drawn } : SendPort).allocateMiss line
            s.curTick).Armed cfg :=
          .idle (addToReadyList_sorted _ armed.misses) armed.writes event waits
        refine fetched.sendChosen event waits ?_ (.miss i) attempt direct done
        exact .inl ⟨⟨line, s.curTick, s.order⟩, mem_addToReadyList.mpr (.inl rfl), Nat.le_refl _⟩
      next =>
        cases done
        exact drawn.reschedule
    next =>
      cases done
      exact armed.reschedule

theorem Armed.step (armed : s.Armed cfg) (e : PortEvent) (steady : s.Steady cfg e)
    (taken : s.step cfg e = some t) : t.Armed cfg := by
  cases e with
  | advance =>
    simp only [SendPort.step] at taken
    split at taken
    next later =>
      cases taken
      simp only [Bool.and_eq_true, decide_eq_true_eq] at later
      -- time passes, and what is ready stays ready
      refine ⟨armed.misses, armed.writes, armed.event, fun waiting => ?_⟩
      obtain ⟨unscheduled, covered⟩ := armed.retry waiting
      exact ⟨unscheduled, covered.mono (Nat.le_of_lt later.1) (fun _ mem => mem)
        (fun _ mem => mem)⟩
    next => cases taken
  | recvTimingReq ops =>
    obtain ⟨_, applied, rfl⟩ := Option.map_eq_some_iff.mp taken
    exact (armed.applyOps ops steady applied).schedPrefetch
  | recvTimingResp first retired last =>
    obtain ⟨u, applied, taken⟩ := Option.bind_eq_some_iff.mp taken
    obtain ⟨v, done, applied'⟩ := Option.bind_eq_some_iff.mp taken
    obtain ⟨spares, rest⟩ := steady
    obtain ⟨prompt, spares'⟩ := rest u applied
    exact ((armed.applyOps first spares applied).retire retired prompt done).applyOps last
      (spares' v done) applied'
  | recvTimingSnoopReq ops => exact armed.applyOps ops steady taken
  | processSendEvent attempt =>
    simp only [SendPort.step] at taken
    split at taken
    next due =>
      simp only [Bool.and_eq_true, decide_eq_true_eq, Bool.not_eq_true'] at due
      -- the event is taken off before the port looks at the queues
      have fired : ({ s with sendEvent := none } : SendPort).Armed cfg :=
        .idle armed.misses armed.writes rfl due.2
      exact fired.sendDeferredPacket rfl due.2 attempt steady taken
    next => cases taken
  | retry attempt =>
    simp only [SendPort.step] at taken
    split at taken
    next waiting =>
      have unscheduled := (armed.retry waiting).1
      have retried : ({ s with waitingOnRetry := false } : SendPort).Armed cfg :=
        .idle armed.misses armed.writes unscheduled rfl
      exact retried.sendDeferredPacket unscheduled rfl attempt steady taken
    next => cases taken

/-- A send that comes for a reason draws nothing at another tick. -/
theorem Armed.busy (armed : s.Armed cfg) (e : PortEvent) : s.Busy cfg e := by
  rintro attempt (rfl | rfl) possible
  · obtain ⟨_, taken⟩ := Option.isSome_iff_exists.mp possible
    simp only [SendPort.step] at taken
    split at taken
    next due =>
      simp only [Bool.and_eq_true, decide_eq_true_eq] at due
      rcases armed.event s.curTick due.1 with divides | covered
      · exact .inl divides
      · exact .inr (armed.undrawn covered)
    next => cases taken
  · obtain ⟨_, taken⟩ := Option.isSome_iff_exists.mp possible
    simp only [SendPort.step] at taken
    split at taken
    next waiting => exact .inr (armed.undrawn (armed.retry waiting).2)
    next => cases taken

variable (cfg) in
/-- In a run from the start every draw is at a multiple of the issue interval
exactly when no send event or retry at another tick finds nothing to send and
room for a fetch. This is so in every run in which no writeback is discarded that
a pending send or retry waits for, deferred targets are ready when their send is
scheduled, and no MSHR is held back at its send. -/
theorem draws_on_time (events : List PortEvent) :
    (Runs.Along (step cfg) (fun s e => ∀ t, s.step cfg e = some t → t.OnTime cfg) {}
        events ↔ Runs.Along (step cfg) (Busy cfg) {} events) ∧
    (Runs.Along (step cfg) (Steady cfg) {} events →
      Runs.Along (step cfg) (fun s e => ∀ t, s.step cfg e = some t → t.OnTime cfg) {} events) := by
  have start : ({} : SendPort).OnTime cfg := by
    intro _ mem
    cases mem
  have formed : ∀ (s : SendPort) (e : PortEvent) (t : SendPort), True →
      s.step cfg e = some t → True := fun _ _ _ _ _ => trivial
  have exactly := Runs.along_keeps_iff formed
    (fun s e _ onTime => step_onTime_iff e onTime) {} events trivial start
  refine ⟨exactly, fun steady => exactly.mpr ?_⟩
  have keeps : ∀ (s : SendPort) (e : PortEvent) (t : SendPort), s.Armed cfg →
      s.Steady cfg e → s.step cfg e = some t → t.Armed cfg :=
    fun _ e _ armed steady taken => armed.step e steady taken
  exact Runs.along_of_invariant keeps (fun _ e armed _ => armed.busy e) {} events
    (.idle .nil .nil rfl rfl) steady

/-- A fetch every five cycles of a thousand ticks. -/
def fiveCycles : PortParams where
  issueInterval := 5
  clockPeriod := 1000
  interval_pos := by decide
  period_pos := by decide
  mshrs := 4
  demandMshrReserve := 1
  writeBuffers := 8

/-- A miss is sent, its response evicts a block, and the writeback is sent. -/
def missAndWriteback : List PortEvent :=
  [.recvTimingReq [.allocateMissBuffer ⟨0, false, 0⟩ 1000], .advance 1000, .processSendEvent {},
   .advance 3000, .recvTimingResp [] .deallocated [.allocateWriteBuffer ⟨64, false, 0⟩ 4000],
   .advance 4000, .processSendEvent {}, .advance 5000, .processSendEvent {}]

theorem missAndWriteback_on_time : Runs.Along (step fiveCycles)
      (fun s e => ∀ t, s.step fiveCycles e = some t → t.OnTime fiveCycles) {} missAndWriteback := by
  have direct : Direct {} := by
    refine ⟨nofun, nofun, fun ops sent i mem => ?_⟩
    cases sent
    cases mem
  have spares (s : SendPort) (op : QueueOp) (kept : ∀ i, op ≠ .discardWrite i) :
      s.OpsSpare fiveCycles [op] :=
    opsSpare_of_kept s [op] fun i mem => kept i (List.mem_singleton.mp mem).symm
  apply (draws_on_time fiveCycles missAndWriteback).2
  refine ⟨spares _ _ nofun, fun _ _ => ⟨trivial, fun _ _ => ⟨direct, fun _ _ => ⟨trivial,
    fun _ _ => ⟨⟨trivial, fun _ _ => ⟨nofun, fun _ _ => spares _ _ nofun⟩⟩, fun _ _ => ⟨trivial,
    fun _ _ => ⟨direct, fun _ _ => ⟨trivial, fun _ _ => ⟨direct, fun _ _ => trivial⟩⟩⟩⟩⟩⟩⟩⟩⟩

/-- The same, but another cache invalidates the writeback before it is sent. -/
def invalidatedWriteback : List PortEvent :=
  [.recvTimingReq [.allocateMissBuffer ⟨0, false, 0⟩ 1000], .advance 1000, .processSendEvent {},
   .advance 3000, .recvTimingResp [] .deallocated [.allocateWriteBuffer ⟨64, false, 0⟩ 4000],
   .advance 3500, .recvTimingSnoopReq [.discardWrite 0], .advance 4000, .processSendEvent {}]

/-- The writeback is refused first, and invalidated before the retry. -/
def invalidatedBeforeRetry : List PortEvent :=
  [.recvTimingReq [.allocateMissBuffer ⟨0, false, 0⟩ 1000], .advance 1000, .processSendEvent {},
   .advance 3000, .recvTimingResp [] .deallocated [.allocateWriteBuffer ⟨64, false, 0⟩ 4000],
   .advance 4000, .processSendEvent { result := .refused }, .recvTimingSnoopReq [.discardWrite 0],
   .advance 4700, .retry {}]

/-- In both runs the buffer is drawn from between the multiples of 5000. -/
theorem invalidatedWriteback_draws :
    (Runs.run (step fiveCycles) {} invalidatedWriteback).map drawn = some [4000] ∧
      (Runs.run (step fiveCycles) {} invalidatedBeforeRetry).map drawn = some [4700] ∧
      ¬ fiveCycles.issueTick ∣ 4000 ∧ ¬ fiveCycles.issueTick ∣ 4700 := by
  decide

end SendPort

end RasCache.Mem
