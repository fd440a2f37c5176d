import RasCache.Foundation.BackInsertion
import RasCache.Foundation.Runs
import RasCache.Mem.Packet
import Mathlib.Algebra.Group.Nat.Defs

/-!
# The packet queue of a port

Model of `PacketQueue` (`mem/packet_queue.cc`, `mem/packet_queue.hh`) with the
default `sendDeferredPacket`. Time passes between the calls, but never past the
send event. Whether the peer takes a packet, and when it asks for a retry, is left
to the environment; a packet that is taken may lead to calls of
`schedSendTiming` before `sendTiming` returns. A failed assertion, and the panic
on a queue beyond 128 packets, is `none`.

The transmit list is in the order of the ticks, except that with `forceOrder` a
packet never overtakes one for the same address.
-/
namespace RasCache.Mem

open BackInsertion

def Packet.matchAddr (pkt other : Packet) : Bool :=
  decide (pkt.addr = other.addr) && decide (pkt.isSecure = other.isSecure) &&
    decide (pkt.domainID = other.domainID)

theorem Packet.matchAddr_comm (pkt other : Packet) : pkt.matchAddr other = other.matchAddr pkt := by
  simp only [matchAddr, eq_comm]

def maxTick : Nat := 2 ^ 64 - 1

/-- A `DeferredPacket` of the transmit list, with the number of the call that
handed it in. -/
structure QueuedPacket where
  tick : Nat
  pkt : Packet
  number : Nat
deriving Repr, DecidableEq

structure PacketQueueParams where
  forceOrder : Bool := false
  disableSanityCheck : Bool := false
deriving Repr, DecidableEq

/-- `handed` records the packets of all calls, and `sent` the ones the peer took,
with the tick of the send. -/
structure PacketQueue where
  curTick : Nat := 0
  transmitList : List QueuedPacket := []
  sendEvent : Option Nat := none
  waitingOnRetry : Bool := false
  handed : List QueuedPacket := []
  sent : List (QueuedPacket × Nat) := []
deriving Repr, DecidableEq

/-- The answer of the peer: a packet that is taken may hand in further ones. -/
inductive SendTiming where
  | taken (calls : List (Packet × Nat))
  | refused
deriving Repr, DecidableEq

inductive PacketQueueEvent where
  | advance (tick : Nat)
  | schedSendTiming (pkt : Packet) (time : Nat)
  | processSendEvent (answer : SendTiming)
  | retry (answer : SendTiming)
deriving Repr, DecidableEq

namespace PacketQueue

variable (cfg : PacketQueueParams)

def deferredPacketReady (q : PacketQueue) : Bool :=
  q.transmitList.head?.any fun dp => decide (dp.tick ≤ q.curTick)

def deferredPacketReadyTime (q : PacketQueue) : Nat :=
  match q.transmitList.head? with
  | some dp => dp.tick
  | none => maxTick

def schedSendEvent (q : PacketQueue) (time : Nat) : Option PacketQueue :=
  if q.waitingOnRetry then if q.sendEvent.isSome then none else some q
  else if time = maxTick then some q
  else
    let time := max time (q.curTick + 1)
    match q.sendEvent with
    | none => some { q with sendEvent := some time }
    | some scheduled =>
      some (if time < scheduled then { q with sendEvent := some time } else q)

/-- The search of `schedSendTiming` from the end goes past this packet. -/
def passes (pkt : Packet) (time : Nat) (dp : QueuedPacket) : Bool :=
  !(cfg.forceOrder && dp.pkt.matchAddr pkt) && decide (time < dp.tick)

def enqueue (q : PacketQueue) (pkt : Packet) (time : Nat) : PacketQueue :=
  let dp := ⟨time, pkt, q.handed.length⟩
  { q with
    transmitList := insertBack (passes cfg pkt time) dp q.transmitList
    handed := q.handed ++ [dp] }

def schedSendTiming (q : PacketQueue) (pkt : Packet) (time : Nat) : Option PacketQueue :=
  if time < q.curTick || pkt.expressSnoop then none
  else if !cfg.disableSanityCheck && decide (128 < q.transmitList.length) then none
  -- only a new first packet moves the send event
  else if q.transmitList.rdropWhile (passes cfg pkt time) = [] then
    (q.enqueue cfg pkt time).schedSendEvent time
  else some (q.enqueue cfg pkt time)

/-- The calls made while the peer takes a packet. -/
def schedAll (q : PacketQueue) (calls : List (Packet × Nat)) : Option PacketQueue :=
  Runs.run (fun q call => q.schedSendTiming cfg call.1 call.2) q calls

def sendDeferredPacket (q : PacketQueue) (answer : SendTiming) : Option PacketQueue :=
  if q.waitingOnRetry || !q.deferredPacketReady then none
  else
    match q.transmitList with
    | [] => none
    | dp :: rest =>
      match answer with
      | .taken calls =>
        -- the packet is off the list before the peer gets it
        let q := { q with transmitList := rest, sent := q.sent ++ [(dp, q.curTick)] }
        (q.schedAll cfg calls).bind fun q => q.schedSendEvent q.deferredPacketReadyTime
      | .refused => some { q with waitingOnRetry := true }

def step (q : PacketQueue) : PacketQueueEvent → Option PacketQueue
  | .advance tick =>
    if q.curTick ≤ tick ∧ tick < maxTick ∧ q.sendEvent.all (fun time => decide (tick ≤ time)) then
      some { q with curTick := tick }
    else none
  | .schedSendTiming pkt time => q.schedSendTiming cfg pkt time
  | .processSendEvent answer =>
    if q.sendEvent = some q.curTick then
      if q.waitingOnRetry then none
      else ({ q with sendEvent := none } : PacketQueue).sendDeferredPacket cfg answer
    else none
  | .retry answer =>
    if q.waitingOnRetry then
      ({ q with waitingOnRetry := false } : PacketQueue).sendDeferredPacket cfg answer
    else none

/-- The event is possible and calls `sendDeferredPacket`. -/
def sends (q : PacketQueue) : PacketQueueEvent → Bool
  | .processSendEvent _ => decide (q.sendEvent = some q.curTick)
  | .retry _ => q.waitingOnRetry
  | .advance _ | .schedSendTiming _ _ => false

end PacketQueue

/-! ### What is kept -/

/-- The order of the ticks, and of the calls among packets of one tick. -/
def QueuedPacket.Before (first second : QueuedPacket) : Prop :=
  first.tick < second.tick ∨ first.tick = second.tick ∧ first.number < second.number

theorem QueuedPacket.Before.of_le {first second : QueuedPacket} (tick : first.tick ≤ second.tick)
    (number : first.number < second.number) : first.Before second := by
  rcases Nat.lt_or_eq_of_le tick with earlier | same
  · exact .inl earlier
  · exact .inr ⟨same, number⟩

/-- The order of the calls among packets for one address. -/
def QueuedPacket.Follows (first second : QueuedPacket) : Prop :=
  first.pkt.matchAddr second.pkt = true → first.number < second.number

namespace PacketQueue

/-- The packets that were sent, and behind them the ones that wait, in their
order. -/
def order (q : PacketQueue) : List QueuedPacket := q.sent.map Prod.fst ++ q.transmitList

/-- Every packet handed in was sent or waits, once. None was sent early, the
packets for one address keep the order of their calls where that is forced, and
otherwise all are in the order of their ticks. -/
structure Delivers (cfg : PacketQueueParams) (q : PacketQueue) : Prop where
  conserved : q.order.Perm q.handed
  numbered : q.handed.map QueuedPacket.number = List.range q.handed.length
  onTime : ∀ dp ∈ q.sent, dp.1.tick ≤ dp.2 ∧ dp.2 ≤ q.curTick
  byAddr : cfg.forceOrder = true → q.order.Pairwise QueuedPacket.Follows
  byTick : cfg.forceOrder = false → q.order.Pairwise QueuedPacket.Before

/-- The first packet is ready when it waits for a retry, and when the send event
is due. -/
structure Timely (q : PacketQueue) : Prop where
  waiting : q.waitingOnRetry = true →
    q.sendEvent = none ∧ ∃ dp, q.transmitList.head? = some dp ∧ dp.tick ≤ q.curTick
  scheduled : ∀ time, q.sendEvent = some time →
    q.curTick ≤ time ∧ ∃ dp, q.transmitList.head? = some dp ∧ dp.tick ≤ time

variable {cfg : PacketQueueParams} {q after : PacketQueue}
  {dp : QueuedPacket} {time : Nat} {pkt : Packet}

theorem Delivers.number_lt (delivers : Delivers cfg q) (mem : dp ∈ q.order) :
    dp.number < q.handed.length := by
  have handed : dp ∈ q.handed := delivers.conserved.mem_iff.mp mem
  have number : dp.number ∈ q.handed.map QueuedPacket.number := List.mem_map_of_mem handed
  rw [delivers.numbered] at number
  exact List.mem_range.mp number

/-- No packet is handed in, sent or moved: the account stays the same. -/
theorem Delivers.congr (delivers : Delivers cfg q)
    (list : after.transmitList = q.transmitList) (sent : after.sent = q.sent)
    (handed : after.handed = q.handed) (forward : q.curTick ≤ after.curTick) :
    Delivers cfg after := by
  have order : after.order = q.order := by rw [PacketQueue.order, list, sent, PacketQueue.order]
  exact {
    conserved := by rw [order, handed]; exact delivers.conserved
    numbered := by rw [handed]; exact delivers.numbered
    onTime := by
      rw [sent]
      intro dp mem
      obtain ⟨early, past⟩ := delivers.onTime dp mem
      exact ⟨early, Nat.le_trans past forward⟩
    byAddr := by rw [order]; exact delivers.byAddr
    byTick := by rw [order]; exact delivers.byTick }

/-! ### The send event -/

/-- The event stays, or it is set to the time asked for or to the next tick. -/
theorem schedSendEvent_cases (ret : q.schedSendEvent time = some after) :
    after = q ∨ q.waitingOnRetry = false ∧ time ≠ maxTick ∧
      after = { q with sendEvent := some (max time (q.curTick + 1)) } := by
  unfold schedSendEvent at ret
  split at ret
  next =>
    -- a queue that waits for a retry is woken by the retry
    split at ret <;> cases ret
    exact .inl rfl
  next running =>
    simp only [Bool.not_eq_true] at running
    split at ret
    next =>
      cases ret
      exact .inl rfl
    next finite =>
      -- the event is scheduled, moved forward, or early enough already
      dsimp only at ret
      split at ret
      next =>
        cases ret
        exact .inr ⟨running, finite, rfl⟩
      next =>
        split at ret <;> cases ret
        · exact .inr ⟨running, finite, rfl⟩
        · exact .inl rfl

/-- An event that is left alone, or moved to a time at which the first packet is
ready, is timely. -/
theorem schedSendEvent_timely (timely : Timely q)
    (first : time ≠ maxTick → ∃ dp, q.transmitList.head? = some dp ∧ dp.tick ≤ time)
    (ret : q.schedSendEvent time = some after) : Timely after := by
  rcases schedSendEvent_cases ret with rfl | ⟨running, finite, rfl⟩
  · exact timely
  · constructor
    · intro waiting
      rw [running] at waiting
      cases waiting
    · intro _ same
      cases same
      obtain ⟨dp, head, _⟩ := first finite
      refine ⟨?_, dp, head, by omega⟩
      show q.curTick ≤ max time (q.curTick + 1)
      omega

theorem schedSendEvent_delivers (delivers : Delivers cfg q)
    (ret : q.schedSendEvent time = some after) : Delivers cfg after := by
  rcases schedSendEvent_cases ret with rfl | ⟨_, _, rfl⟩
  · exact delivers
  · exact delivers.congr rfl rfl rfl (Nat.le_refl _)

/-- A packet that waits is woken: by the retry, by the send event, or never when
it is not to be sent before the end of time. -/
def Armed (q : PacketQueue) : Prop :=
  q.transmitList ≠ [] →
    q.waitingOnRetry = true ∨ q.sendEvent.isSome = true ∨ q.deferredPacketReadyTime = maxTick

theorem schedSendEvent_armed (ret : q.schedSendEvent q.deferredPacketReadyTime = some after) :
    Armed after := by
  intro _
  by_cases waiting : q.waitingOnRetry = true
  · rcases schedSendEvent_cases ret with rfl | ⟨running, _⟩
    · exact .inl waiting
    · rw [waiting] at running
      cases running
  · simp only [Bool.not_eq_true] at waiting
    by_cases never : q.deferredPacketReadyTime = maxTick
    · simp only [schedSendEvent, waiting, never, Bool.false_eq_true, if_false, if_true] at ret
      cases ret
      exact .inr (.inr never)
    · simp only [schedSendEvent, waiting, never, Bool.false_eq_true, if_false] at ret
      cases event : q.sendEvent with
      | none =>
        simp only [event] at ret
        cases ret
        exact .inr (.inl rfl)
      | some =>
        -- the event is moved forward, or stays where it is
        simp only [event] at ret
        split at ret <;> cases ret
        · exact .inr (.inl rfl)
        · exact .inr (.inl (by rw [event]; rfl))

/-! ### A new packet -/

theorem passes_later (passed : passes cfg pkt time dp = true) : time < dp.tick := by
  simp only [passes, Bool.and_eq_true, decide_eq_true_eq] at passed
  exact passed.2

theorem enqueue_delivers (pkt : Packet) (delivers : Delivers cfg q) (now : q.curTick ≤ time) :
    Delivers cfg (q.enqueue cfg pkt time) := by
  have waits : ∀ dp ∈ q.transmitList, dp ∈ q.order := fun dp mem => List.mem_append_right _ mem
  constructor
  case conserved =>
    have inserted := insertBack_perm (passes cfg pkt time) ⟨time, pkt, q.handed.length⟩
      q.transmitList
    have moved : (q.enqueue cfg pkt time).order.Perm (⟨time, pkt, q.handed.length⟩ :: q.order) :=
      (inserted.append_left _).trans List.perm_middle
    exact moved.trans ((delivers.conserved.cons _).trans (List.perm_append_singleton _ _).symm)
  case numbered =>
    simp only [enqueue, List.map_append, delivers.numbered, List.map_cons, List.map_nil,
      List.length_append, List.length_singleton, List.range_succ]
  case onTime => exact delivers.onTime
  case byAddr =>
    intro forced
    refine append_insertBack_pairwise _ (delivers.byAddr forced) ?_ ?_ ?_
    · exact fun dp early _ => delivers.number_lt (List.mem_append_left _ early)
    · exact fun dp mem _ _ _ _ _ => delivers.number_lt (waits dp mem)
    · -- what it passed is for another address
      intro _ _ passed same
      rw [Packet.matchAddr_comm] at same
      simp [passes, forced, same] at passed
  case byTick =>
    intro free
    refine append_insertBack_pairwise _ (delivers.byTick free) ?_ ?_ ?_
    · -- what was sent was ready before now, and the call is not for the past
      intro dp early
      obtain ⟨entry, mem, rfl⟩ := List.mem_map.mp early
      obtain ⟨ready, past⟩ := delivers.onTime entry mem
      exact .of_le (Nat.le_trans (Nat.le_trans ready past) now)
        (delivers.number_lt (List.mem_append_left _ early))
    · -- the packet the walk stopped at is not ready later, and neither are those before it
      intro dp mem stop _ stops order
      have reached : stop.tick ≤ time := by
        simpa [passes, free] using stops
      have notLater : dp.tick ≤ stop.tick := by
        rcases order with rfl | order | ⟨same, _⟩
        · exact Nat.le_refl _
        · exact Nat.le_of_lt order
        · exact Nat.le_of_eq same
      exact .of_le (Nat.le_trans notLater reached) (delivers.number_lt (waits dp mem))
    · exact fun _ _ passed => .inl (passes_later passed)

/-- A packet that goes to the front is ready before the one that was there, so
neither the retry nor the event finds it unready. -/
theorem enqueue_timely (cfg : PacketQueueParams) (pkt : Packet) (timely : Timely q)
    (late : q.curTick ≤ time) : Timely (q.enqueue cfg pkt time) := by
  by_cases front : q.transmitList.rdropWhile (passes cfg pkt time) = []
  · have head : (q.enqueue cfg pkt time).transmitList.head? =
        some ⟨time, pkt, q.handed.length⟩ := by
      rw [enqueue, insertBack_of_all _ _ front, List.head?_cons]
    have passed : ∀ dp, q.transmitList.head? = some dp → time < dp.tick := by
      intro dp first
      exact passes_later (List.rdropWhile_eq_nil_iff.mp front dp (List.mem_of_head? first))
    constructor
    · intro waiting
      obtain ⟨_, dp, first, _⟩ := timely.waiting waiting
      have later := passed dp first
      omega
    · intro event scheduled
      obtain ⟨ahead, dp, first, _⟩ := timely.scheduled event scheduled
      have later := passed dp first
      refine ⟨ahead, _, head, ?_⟩
      show time ≤ event
      omega
  · -- the first packet is the one it was
    have head : (q.enqueue cfg pkt time).transmitList.head? = q.transmitList.head? :=
      insertBack_head _ _ front
    constructor
    · intro waiting
      rw [head]
      exact timely.waiting waiting
    · intro event scheduled
      rw [head]
      exact timely.scheduled event scheduled

/-- What one call does: the packet is put into the list, and a new first packet
asks for the send event. -/
theorem schedSendTiming_cases (ret : q.schedSendTiming cfg pkt time = some after) :
    q.curTick ≤ time ∧ (q.transmitList.rdropWhile (passes cfg pkt time) = [] ∧
          (q.enqueue cfg pkt time).schedSendEvent time = some after ∨
        q.transmitList.rdropWhile (passes cfg pkt time) ≠ [] ∧ after = q.enqueue cfg pkt time) := by
  unfold schedSendTiming at ret
  split at ret
  next => cases ret
  next fits =>
    have late : q.curTick ≤ time := by
      simp only [Bool.or_eq_true, decide_eq_true_eq, not_or] at fits
      omega
    refine ⟨late, ?_⟩
    split at ret
    · cases ret
    · split at ret
      next front => exact .inl ⟨front, ret⟩
      next stopped =>
        cases ret
        exact .inr ⟨stopped, rfl⟩

theorem schedSendTiming_keeps (delivers : Delivers cfg q) (timely : Timely q)
    (ret : q.schedSendTiming cfg pkt time = some after) : Delivers cfg after ∧ Timely after := by
  obtain ⟨late, outcome⟩ := schedSendTiming_cases ret
  have account := enqueue_delivers pkt delivers late
  have ready := enqueue_timely cfg pkt timely late
  rcases outcome with ⟨front, event⟩ | ⟨_, rfl⟩
  · refine ⟨schedSendEvent_delivers account event, schedSendEvent_timely ready ?_ event⟩
    intro _
    refine ⟨⟨time, pkt, q.handed.length⟩, ?_, Nat.le_refl time⟩
    rw [enqueue, insertBack_of_all _ _ front, List.head?_cons]
  · exact ⟨account, ready⟩

theorem schedSendTiming_armed (armed : Armed q)
    (ret : q.schedSendTiming cfg pkt time = some after) : Armed after := by
  obtain ⟨_, ⟨front, event⟩ | ⟨stopped, rfl⟩⟩ := schedSendTiming_cases ret
  · have first : (q.enqueue cfg pkt time).deferredPacketReadyTime = time := by
      rw [deferredPacketReadyTime, enqueue, insertBack_of_all _ _ front, List.head?_cons]
    refine schedSendEvent_armed (q := q.enqueue cfg pkt time) ?_
    rw [first]
    exact event
  · intro _
    have head : (q.enqueue cfg pkt time).transmitList.head? = q.transmitList.head? :=
      insertBack_head _ _ stopped
    have waits : q.transmitList ≠ [] := by
      intro empty
      simp [empty] at stopped
    rw [deferredPacketReadyTime, head]
    exact armed waits

/-! ### A send -/

theorem schedAll_keeps {calls : List (Packet × Nat)} (delivers : Delivers cfg q)
    (timely : Timely q) (ret : q.schedAll cfg calls = some after) :
    Delivers cfg after ∧ Timely after := by
  have keeps : ∀ (q : PacketQueue) (call : Packet × Nat) (after : PacketQueue),
      Delivers cfg q ∧ Timely q → True → q.schedSendTiming cfg call.1 call.2 = some after →
        Delivers cfg after ∧ Timely after :=
    fun q call after kept _ ret => schedSendTiming_keeps kept.1 kept.2 ret
  exact Runs.run_invariant keeps q after calls ⟨delivers, timely⟩ (Runs.along_trivial q calls) ret

theorem taken_delivers {rest : List QueuedPacket} (delivers : Delivers cfg q)
    (list : q.transmitList = dp :: rest) (ready : dp.tick ≤ q.curTick) :
    Delivers cfg { q with transmitList := rest, sent := q.sent ++ [(dp, q.curTick)] } := by
  -- the packet goes from the list to the packets sent: one order, cut at another place
  have order : ({ q with transmitList := rest, sent := q.sent ++ [(dp, q.curTick)] } :
      PacketQueue).order = q.order := by
    simp [PacketQueue.order, list]
  constructor
  case conserved =>
    rw [order]
    exact delivers.conserved
  case numbered => exact delivers.numbered
  case onTime =>
    exact List.forall_mem_append.mpr ⟨delivers.onTime,
      List.forall_mem_singleton.mpr ⟨ready, Nat.le_refl _⟩⟩
  case byAddr =>
    rw [order]
    exact delivers.byAddr
  case byTick =>
    rw [order]
    exact delivers.byTick

theorem sendDeferredPacket_keeps {answer : SendTiming} (delivers : Delivers cfg q)
    (idle : q.sendEvent = none) (ret : q.sendDeferredPacket cfg answer = some after) :
    Delivers cfg after ∧ Timely after ∧ Armed after := by
  unfold sendDeferredPacket at ret
  split at ret
  next => cases ret
  next asserted =>
    simp only [Bool.or_eq_true, not_or, Bool.not_eq_true, Bool.not_eq_false'] at asserted
    obtain ⟨running, ready⟩ := asserted
    split at ret
    next => cases ret
    next dp rest list =>
      have ready : dp.tick ≤ q.curTick := by
        simpa [deferredPacketReady, list] using ready
      cases answer with
      | taken =>
        simp only [Option.bind_eq_some_iff] at ret
        obtain ⟨between, called, event⟩ := ret
        -- while the packet is out, the receiver can hand over others
        have quiet : Timely
            { q with transmitList := rest, sent := q.sent ++ [(dp, q.curTick)] } := by
          constructor
          · intro waiting
            rw [running] at waiting
            cases waiting
          · intro _ scheduled
            rw [idle] at scheduled
            cases scheduled
        obtain ⟨account, timely⟩ := schedAll_keeps (taken_delivers delivers list ready) quiet called
        refine ⟨schedSendEvent_delivers account event, schedSendEvent_timely timely ?_ event,
          schedSendEvent_armed event⟩
        -- the event is asked for the time of the first packet
        intro finite
        unfold deferredPacketReadyTime at finite ⊢
        cases head : between.transmitList.head? with
        | none =>
          rw [head] at finite
          exact absurd rfl finite
        | some first => exact ⟨first, rfl, Nat.le_refl _⟩
      | refused =>
        cases ret
        refine ⟨delivers.congr rfl rfl rfl (Nat.le_refl _), ⟨?_, ?_⟩, fun _ => .inl rfl⟩
        · intro _
          refine ⟨idle, dp, ?_, ready⟩
          rw [list, List.head?_cons]
        · intro _ scheduled
          rw [idle] at scheduled
          cases scheduled

/-! ### Whole runs -/

structure Sound (cfg : PacketQueueParams) (q : PacketQueue) : Prop where
  delivers : Delivers cfg q
  timely : Timely q
  armed : Armed q

variable {e : PacketQueueEvent}

theorem Sound.step (sound : Sound cfg q) (taken : q.step cfg e = some after) : Sound cfg after := by
  cases e with
  | advance =>
    simp only [PacketQueue.step] at taken
    split at taken <;> cases taken
    next passes =>
      obtain ⟨forward, _, notPast⟩ := passes
      -- time passes up to the event that is scheduled and no further
      refine ⟨sound.delivers.congr rfl rfl rfl forward, ⟨?_, ?_⟩, sound.armed⟩
      · intro waiting
        obtain ⟨idle, dp, first, ready⟩ := sound.timely.waiting waiting
        exact ⟨idle, dp, first, Nat.le_trans ready forward⟩
      · intro time scheduled
        obtain ⟨_, dp, first, ready⟩ := sound.timely.scheduled time scheduled
        have scheduled : q.sendEvent = some time := scheduled
        rw [scheduled] at notPast
        exact ⟨by simpa using notPast, dp, first, ready⟩
  | schedSendTiming =>
    obtain ⟨delivers, timely⟩ := schedSendTiming_keeps sound.delivers sound.timely taken
    exact ⟨delivers, timely, schedSendTiming_armed sound.armed taken⟩
  | processSendEvent =>
    simp only [PacketQueue.step] at taken
    split at taken
    next =>
      split at taken
      next => cases taken
      next =>
        have account : Delivers cfg { q with sendEvent := none } :=
          sound.delivers.congr rfl rfl rfl (Nat.le_refl _)
        obtain ⟨delivers, timely, armed⟩ := sendDeferredPacket_keeps account rfl taken
        exact ⟨delivers, timely, armed⟩
    next => cases taken
  | retry =>
    simp only [PacketQueue.step] at taken
    split at taken
    next waiting =>
      -- a retry finds no event scheduled, so it may send itself
      obtain ⟨idle, _⟩ := sound.timely.waiting waiting
      have account : Delivers cfg { q with waitingOnRetry := false } :=
        sound.delivers.congr rfl rfl rfl (Nat.le_refl _)
      obtain ⟨delivers, timely, armed⟩ := sendDeferredPacket_keeps account idle taken
      exact ⟨delivers, timely, armed⟩
    next => cases taken

theorem Sound.empty (tick : Nat) : Sound cfg { curTick := tick } where
  delivers :=
    { conserved := List.Perm.refl _
      numbered := rfl
      onTime := fun _ none => by cases none
      byAddr := fun _ => List.Pairwise.nil
      byTick := fun _ => List.Pairwise.nil }
  timely :=
    { waiting := fun waiting => by cases waiting
      scheduled := fun _ scheduled => by cases scheduled }
  armed := fun waits => absurd rfl waits

theorem Sound.run {tick : Nat} {es : List PacketQueueEvent}
    (ran : Runs.run (PacketQueue.step cfg) { curTick := tick } es = some q) :
    Sound cfg q := by
  have keeps : ∀ (q : PacketQueue) (e : PacketQueueEvent) (after : PacketQueue),
      Sound cfg q → True → q.step cfg e = some after → Sound cfg after :=
    fun q e after sound _ taken => sound.step taken
  exact Runs.run_invariant keeps _ q es (.empty tick) (Runs.along_trivial _ es) ran

theorem Timely.ready (timely : Timely q) (sends : q.sends e = true) :
    q.deferredPacketReady = true := by
  have ready : ∃ dp, q.transmitList.head? = some dp ∧ dp.tick ≤ q.curTick := by
    cases e with
    | processSendEvent =>
      have due : q.sendEvent = some q.curTick := by simpa [PacketQueue.sends] using sends
      exact (timely.scheduled q.curTick due).2
    | retry => exact (timely.waiting sends).2
    | advance => cases sends
    | schedSendTiming => cases sends
  obtain ⟨_, first, reached⟩ := ready
  simp [deferredPacketReady, first, reached]

end PacketQueue

open PacketQueue in
/-- After any run, each packet handed in was sent or waits, once; none was sent
before its tick; packets for one address are sent in the order of their calls
where that is forced, and otherwise all packets by tick and then by call. The
assertion of the next send holds. -/
theorem packetQueue_delivers (cfg : PacketQueueParams) (tick : Nat) (es : List PacketQueueEvent)
    (q : PacketQueue) (ran : Runs.run (step cfg) { curTick := tick } es = some q) :
    Delivers cfg q ∧ ∀ e, q.sends e = true → q.deferredPacketReady = true := by
  have sound := Sound.run ran
  exact ⟨sound.delivers, fun e sends => sound.timely.ready sends⟩

/-- Two packets for one address, the second to be sent first; the first one is
refused once. -/
def refusedOnce : List PacketQueueEvent :=
  [.schedSendTiming (.noFillLoad 0) 10, .schedSendTiming (.noFillLoad 0) 5, .advance 10,
    .processSendEvent .refused, .advance 12, .retry (.taken []), .advance 13,
    .processSendEvent (.taken [])]

theorem packetQueue_delivers_refusedOnce : ∃ q,
    Runs.run (PacketQueue.step { forceOrder := true }) { curTick := 0 } refusedOnce = some q ∧
      q.sent.map (fun entry => (entry.1.number, entry.2)) = [(0, 12), (1, 13)] ∧
      q.Delivers { forceOrder := true } ∧
      ∀ e, q.sends e = true → q.deferredPacketReady = true := by
  have both : (Runs.run (PacketQueue.step { forceOrder := true }) { curTick := 0 }
      refusedOnce).any (fun q =>
        decide (q.sent.map (fun entry => (entry.1.number, entry.2)) = [(0, 12), (1, 13)])) =
      true := by
    decide +kernel
  obtain ⟨q, ran, sent⟩ := (Option.any_eq_true _ _).mp both
  exact ⟨q, ran, of_decide_eq_true sent, packetQueue_delivers _ 0 _ q ran⟩

end RasCache.Mem
