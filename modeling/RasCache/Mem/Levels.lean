import RasCache.Mem.Denial
import RasCache.Mem.TempBlock
import RasCache.Mem.Tracking

/-!
# Two levels and one miss

A miss of the first level that a speculative request opened, followed through
both levels until its response arrives. A later request that may fill joins the
miss in the first level; the PfAck it causes reaches the second level at once.
Whether both levels then fill depends on when it joins and on the address it
carries.
-/
namespace RasCache.Mem

open Outcomes

/-! ### Requests that miss -/

/-- The commands that lead to an MSHR when the line is absent. -/
def MemCmd.opensMiss (cmd : MemCmd) : Bool :=
  cmd.has .isRequest && !cmd.has .isEviction && decide (cmd ≠ .writeClean) &&
    decide (cmd ≠ .hardPFReq) && !cmd.has .isSWPrefetch && !(cmd.has .isLlsc && cmd.has .isWrite)

theorem MemCmd.opensMiss_iff (cmd : MemCmd) : cmd.opensMiss = true ↔
    cmd.has .isRequest = true ∧ cmd.has .isEviction = false ∧ cmd ≠ .writeClean ∧
      cmd ≠ .hardPFReq ∧ cmd.has .isSWPrefetch = false ∧
      (cmd.has .isLlsc && cmd.has .isWrite) = false := by
  simp only [opensMiss, Bool.and_eq_true, Bool.not_eq_true', decide_eq_true_eq, and_assoc]

namespace Packet

def opensMiss (pkt : Packet) : Bool :=
  pkt.cmd.opensMiss && !pkt.req.flags.uncacheable && !pkt.req.isCacheMaintenance

theorem opensMiss_iff (pkt : Packet) : pkt.opensMiss = true ↔
    pkt.cmd.opensMiss = true ∧ pkt.req.flags.uncacheable = false ∧
      pkt.req.isCacheMaintenance = false := by
  simp [opensMiss, and_assoc]

/-- A load or store of the core. -/
def isDemand (pkt : Packet) : Bool := pkt.opensMiss && pkt.isDemandFetch

end Packet

namespace Cache

variable {R : Type} (rp : ReplacementPolicy R) (cfg : CacheParams)

/-- The response is put into a block of the tag array, which then holds the line. -/
def installs (cache : Cache R) (id : Nat) (pkt : Packet) (tick : Nat) : Bool :=
  match cache.answered id pkt with
  | none => false
  | some mshr =>
    match cache.fillStage rp cfg mshr pkt tick with
    | .ok (some (.tag place), filled, _, _) =>
      (filled.tags.blk place).holds (pkt.line cfg.blkSize)
    | _ => false

/-- The response finds room in the tag array: it is a fill, the write allocator
is not against it, and the victim can be evicted. -/
def Fillable (cache : Cache R) (mshr : Mshr) (pkt : Packet) (key : LineKey) : Prop :=
  isFill mshr pkt = true ∧
    (cfg.hasWriteAllocator = true → mshr.wasWholeLineWrite = true →
      cache.writeAllocator.allocate = true) ∧
    victimHeld rp cache key.blkAddr = false

/-! ### A request for an absent line -/

variable {cache after : Cache R} {pkt : Packet} {above : Packet → Bool} {tick : Nat}

theorem access_absent (tick : Nat) (opens : pkt.opensMiss = true)
    (absent : cache.tags.findBlock rp (pkt.line cfg.blkSize) = none) :
    cache.access rp cfg pkt tick = .ok ⟨false, none, cache, [], pkt⟩ := by
  obtain ⟨command, cacheable, plain⟩ := pkt.opensMiss_iff.mp opens
  obtain ⟨request, stays, clean, fetch, _, conditional⟩ := pkt.cmd.opensMiss_iff.mp command
  have request : pkt.isRequest = true := request
  have stays : pkt.isEviction = false := stays
  have conditional : (pkt.isLLSC && pkt.isWrite) = false := conditional
  have looked : cache.tags.accessBlock rp (pkt.line cfg.blkSize) pkt.mayNotFill tick =
      (none, cache.tags) := by
    simp only [Tags.accessBlock, absent]
  have written : pkt.isWriteback = false := by simp [Packet.isWriteback, stays]
  have evicts : pkt.cmd ≠ .cleanEvict := by
    intro same
    simp [Packet.isEviction, same, MemCmd.has, MemCmd.attributes] at stays
  unfold access
  simp only [request, cacheable, looked, fetch, plain, stays, Bool.not_true, Bool.false_eq_true,
    if_false, decide_false, Bool.false_and]
  unfold accessBlk
  simp [written, clean, evicts, conditional]

/-- The request goes on to the queue, with no more than the write allocator
changed. -/
theorem recvTimingReq_absent (above : Packet → Bool) (tick : Nat) (opens : pkt.opensMiss = true)
    (absent : cache.tags.findBlock rp (pkt.line cfg.blkSize) = none) :
    ∃ start : Cache R, QueueKept cache start ∧ start.tags = cache.tags ∧
      cache.recvTimingReq rp cfg above pkt tick =
        match cache.findMshr (pkt.line cfg.blkSize) with
        | some e => start.coalesce cfg e pkt
        | none => start.openMiss cfg pkt none := by
  have missed : cache.recvTimingReq rp cfg above pkt tick =
      cache.handleTimingReqMiss cfg pkt none := by
    unfold recvTimingReq
    rw [access_absent rp cfg tick opens absent]
    simp [bind, Except.bind, doWritebacks]
  obtain ⟨command, cacheable, _⟩ := pkt.opensMiss_iff.mp opens
  obtain ⟨_, _, _, _, soft, _⟩ := pkt.cmd.opensMiss_iff.mp command
  have soft : pkt.isSWPrefetch = false := soft
  rw [missed]
  unfold handleTimingReqMiss
  simp only [cacheable, soft, Bool.false_eq_true, if_false]
  -- the write allocator counts writes; it is no part of the queue
  by_cases counts : (cfg.hasWriteAllocator && pkt.isWrite) = true
  · simp only [counts, if_true]
    exact ⟨{ cache with
      writeAllocator := cache.writeAllocator.updateMode cfg pkt.addr pkt.size }, ⟨rfl, rfl⟩, rfl,
      rfl⟩
  · simp only [counts, Bool.false_eq_true, if_false]
    exact ⟨cache, ⟨rfl, rfl⟩, rfl, rfl⟩

section

variable (opens : pkt.opensMiss = true)
  (absent : cache.tags.findBlock rp (pkt.line cfg.blkSize) = none)
include opens absent

variable {sent : Sent}

theorem recvTimingReq_opens (idle : cache.findMshr (pkt.line cfg.blkSize) = none)
    (ret : cache.recvTimingReq rp cfg above pkt tick = .ok (after, sent)) :
    QueueKept (cache.allocateMissBuffer cfg pkt (!cfg.nofillEn)) after ∧
      after.tags = cache.tags := by
  obtain ⟨_, kept, same, missed⟩ := recvTimingReq_absent rp cfg above tick opens absent
  simp only [missed, idle] at ret
  obtain ⟨command, _, _⟩ := pkt.opensMiss_iff.mp opens
  obtain ⟨_, stays, clean, _, _, _⟩ := pkt.cmd.opensMiss_iff.mp command
  have stays : pkt.isEviction = false := stays
  unfold openMiss at ret
  simp only [stays, clean, decide_false, Bool.or_false, Bool.false_eq_true, if_false,
    Option.any_none] at ret
  split at ret <;> cases ret
  exact ⟨allocateMissBuffer_queue cfg pkt _ kept, same⟩

theorem recvTimingReq_joins {entry : MshrEntry}
    (hit : cache.findMshr (pkt.line cfg.blkSize) = some entry)
    (ret : cache.recvTimingReq rp cfg above pkt tick = .ok (after, sent)) :
    ∃ mshr, entry.mshr.allocateTarget pkt cache.order (cfg.allocOnFill pkt.cmd) = some mshr ∧
      after.mshrs = (cache.setMshr entry.id mshr).mshrs ∧ after.tags = cache.tags ∧
      sent.pfAck = if pkt.isDemandFetch && entry.mshr.mayNotFill && !pkt.mayNotFill &&
        decide (cfg.cacheLevel = 1) then [pkt] else [] := by
  obtain ⟨_, kept, same, missed⟩ := recvTimingReq_absent rp cfg above tick opens absent
  simp only [missed, hit] at ret
  obtain ⟨command, _, _⟩ := pkt.opensMiss_iff.mp opens
  obtain ⟨_, stays, clean, _, _, _⟩ := pkt.cmd.opensMiss_iff.mp command
  -- a packet that opens a miss is none of those that are dropped or go to the write buffer
  have written : pkt.isWriteback = false := by simp [Packet.isWriteback, Packet.isEviction, stays]
  have evicts : pkt.cmd ≠ .cleanEvict := by
    intro same
    simp [same, MemCmd.has, MemCmd.attributes] at stays
  unfold coalesce at ret
  simp only [written, clean, evicts, Bool.false_eq_true, if_false] at ret
  obtain ⟨mshr, added, ret⟩ := bind_ok_iff.mp ret
  cases ret
  rw [orFail_ok_iff, kept.order] at added
  exact ⟨mshr, added, by simp only [setMshr, kept.mshrs], same, rfl⟩

end

/-! ### The response -/

variable {mshr : Mshr}

theorem fillStage_installs {filled : Cache R} {resp : Packet} {ref : Option BlkRef}
    {writebacks : List Packet} (fillable : cache.Fillable rp cfg mshr pkt (pkt.line cfg.blkSize))
    (allowed : allowFill mshr pkt = true)
    (absent : cache.tags.findBlock rp (pkt.line cfg.blkSize) = none)
    (ret : cache.fillStage rp cfg mshr pkt tick = .ok (ref, filled, writebacks, resp)) :
    resp = pkt ∧ ∃ place, ref = some (.tag place) ∧
      (filled.tags.blk place).holds (pkt.line cfg.blkSize) = true := by
  obtain ⟨fills, unopposed, free⟩ := fillable
  -- neither the no-fill mark nor the write allocator stands in the way
  have allocate : cache.allocates cfg mshr pkt = true := by
    unfold allocates
    split
    next whole =>
      simp only [Bool.and_eq_true] at whole
      exact unopposed whole.1 whole.2
    next => exact allowed
  cases fillStage_cases ret with
  | passed other => simp [fills] at other
  | filled _ _ _ fill =>
    rw [absent, allocate] at fill
    have outcome := handleFill_cases fill
    cases outcome with
    | allocated place _ _ _ took =>
      have inserted := allocateBlock_some took
      refine ⟨rfl, place, rfl, ?_⟩
      simp [setBlk, getBlk, fillBits, inserted, CacheBlk.insert, CacheBlk.holds]
    | temporary _ _ _ _ _ refused =>
      rcases refused with ⟨never, _⟩ | ⟨_, took⟩
      · cases never
      · -- the allocation is refused only when every victim has an MSHR
        have held := (allocateBlock_none_iff rp cfg cache _ tick).mp ⟨_, _, took⟩
        rw [free] at held
        cases held

theorem Response.installs {id : Nat} {sent : List Packet}
    (r : Response rp cfg above cache id pkt tick after sent)
    (fillable : cache.Fillable rp cfg r.mshr pkt (pkt.line cfg.blkSize))
    (allowed : allowFill r.mshr pkt = true)
    (absent : cache.tags.findBlock rp (pkt.line cfg.blkSize) = none) :
    cache.installs rp cfg id pkt tick = true ∧ r.resp = pkt := by
  obtain ⟨same, _, ref, holds⟩ := fillStage_installs rp cfg fillable allowed absent r.fills
  have fills := r.fills
  rw [ref] at fills
  refine ⟨?_, same⟩
  simp only [Cache.installs, r.answered, fills]
  exact holds

/-! ### Sending a miss -/

theorem missPacket_opens {front : Target} {isForward : Bool}
    (first : mshr.targets.list.head? = some front) (opens : front.pkt.opensMiss = true)
    (made : cache.missPacket rp cfg mshr = some (pkt, isForward)) :
    pkt.opensMiss = true ∧ pkt.line cfg.blkSize = front.pkt.line cfg.blkSize ∧
      pkt.noFillLower = false := by
  unfold missPacket at made
  rw [first, Option.map_some, Option.some.injEq] at made
  dsimp only at made
  -- a packet of its own, or the target itself is forwarded
  split at made
  next created =>
    obtain ⟨rfl, _⟩ := Prod.mk.inj made
    unfold createMissPacket at created
    split at created
    · cases created
    · have line : Packet.blkAlign (Packet.blkAlign front.pkt.addr cfg.blkSize) cfg.blkSize =
          Packet.blkAlign front.pkt.addr cfg.blkSize := Packet.blkAlign_idem _ _
      dsimp only at created
      cases created
      refine ⟨?_, ?_, rfl⟩
      · refine (Packet.opensMiss_iff _).mpr ⟨?_, (front.pkt.opensMiss_iff.mp opens).2⟩
        simp only [Packet.ofBlock, Packet.ofRequest]
        split_ifs <;> rfl
      · simp only [Packet.line, Packet.ofBlock, Packet.ofRequest, line]
        rfl
  next =>
    obtain ⟨rfl, _⟩ := Prod.mk.inj made
    exact ⟨opens, rfl, rfl⟩

end Cache

/-! ### The miss in both levels -/

/-- `id` is the MSHR of the first level and `below` the one of the second level
while that waits for memory; `answer` is the response on its way up. -/
structure Miss (R₁ R₂ : Type) where
  l1 : Cache R₁
  l2 : Cache R₂
  id : Nat
  sent : Bool := false
  below : Option Nat := none
  answer : Option Packet := none
  joined : Bool := false
  filledBelow : Bool := false
  done : Bool := false

/-- `pendingModifiedResp`, `tick` and `above` are as in `CacheEvent`. -/
inductive MissEvent where
  /-- A request of the core that may fill joins the miss. -/
  | join (pkt : Packet) (tick : Nat) (above : Packet → Bool)
  /-- The first level sends the miss, and the second level gets it. -/
  | send (pendingModifiedResp : Bool) (tick : Nat) (above₁ above₂ : Packet → Bool)
  /-- The second level sends its own miss to memory. -/
  | forward (pendingModifiedResp : Bool) (above : Packet → Bool)
  /-- Memory responds to the second level. -/
  | respond (pkt : Packet) (tick : Nat) (above : Packet → Bool)
  /-- The response of the second level reaches the first. -/
  | deliver (tick : Nat) (above : Packet → Bool)
  | other₁ (e : CacheEvent)
  | other₂ (e : CacheEvent)

namespace Miss

variable {R₁ R₂ : Type} (rp₁ : ReplacementPolicy R₁) (rp₂ : ReplacementPolicy R₂)
  (cfg₁ cfg₂ : CacheParams) (key : LineKey)

/-- The PfAcks a request sends down. -/
def recvPfAcks (l2 : Cache R₂) : List Packet → Except Failure (Cache R₂)
  | [] => .ok l2
  | ack :: rest => do
    let l2 ← l2.recvPfAck cfg₂ ack
    recvPfAcks l2 rest

/-- The request may join: it is the first one, it may fill, and it is for the
line. -/
def joins (s : Miss R₁ R₂) (pkt : Packet) : Bool :=
  !s.joined && !s.done && pkt.isDemand && !pkt.mayNotFill &&
    decide (pkt.line cfg₁.blkSize = key)

/-- An event that is not possible now counts as a failed assertion. -/
def handle (s : Miss R₁ R₂) : MissEvent → Except Failure (Miss R₁ R₂)
  | .join pkt tick above =>
    if s.joins cfg₁ key pkt then do
      let (l1, out) ← s.l1.recvTimingReq rp₁ cfg₁ above pkt tick
      let l2 ← recvPfAcks cfg₂ s.l2 out.pfAck
      .ok { s with l1, l2, joined := true }
    else .error .assertion
  | .send pendingModifiedResp tick above₁ above₂ =>
    if s.sent then .error .assertion
    else do
      let (l1, out) ← s.l1.sendMSHRQueuePacket rp₁ cfg₁ above₁ s.id pendingModifiedResp
      let pkt ← Cache.orFail out.down.head?
      let (l2, _) ← s.l2.recvTimingReq rp₂ cfg₂ above₂ pkt tick
      .ok { s with l1, l2, sent := true, below := (l2.findMshr key).map MshrEntry.id }
  | .forward pendingModifiedResp above => do
    let id ← Cache.orFail s.below
    let (l2, _) ← s.l2.sendMSHRQueuePacket rp₂ cfg₂ above id pendingModifiedResp
    .ok { s with l2 }
  | .respond pkt tick above =>
    if pkt.line cfg₂.blkSize = key then do
      let id ← Cache.orFail s.below
      let (l2, up) ← s.l2.recvTimingResp rp₂ cfg₂ above id pkt tick
      .ok { s with
        l2
        below := none
        answer := up.head?
        filledBelow := s.l2.installs rp₂ cfg₂ id pkt tick }
    else .error .assertion
  | .deliver tick above => do
    let pkt ← Cache.orFail s.answer
    if pkt.line cfg₁.blkSize = key then
      let (l1, _) ← s.l1.recvTimingResp rp₁ cfg₁ above s.id pkt tick
      .ok { s with l1, answer := none, done := true }
    else .error .assertion
  | .other₁ e => do
    let (l1, _) ← s.l1.handle rp₁ cfg₁ e
    .ok { s with l1 }
  | .other₂ e => do
    let (l2, _) ← s.l2.handle rp₂ cfg₂ e
    .ok { s with l2 }

def step (s : Miss R₁ R₂) (e : MissEvent) : Option (Miss R₁ R₂) :=
  (s.handle rp₁ rp₂ cfg₁ cfg₂ key e).toOption

/-- The request that may fill has joined: the second level did not deny the fill,
and both levels take the line. -/
def Agreed (s : Miss R₁ R₂) (e : MissEvent) : Prop :=
  ∀ tick above, e = .deliver tick above → s.joined = true → ∀ pkt after,
    s.answer = some pkt → s.step rp₁ rp₂ cfg₁ cfg₂ key e = some after →
      pkt.noFillLower = false ∧ s.filledBelow = true ∧
        s.l1.installs rp₁ cfg₁ s.id pkt tick = true

/-- The request that may fill joins while the second level works on the miss,
carries the address of the block, and is not put off; where it has joined, the
responses find room. Other traffic is about other lines. -/
def Prompt (s : Miss R₁ R₂) : MissEvent → Prop
  | .join pkt _ _ =>
    pkt.addr = key.blkAddr ∧ cfg₁.allocOnFill pkt.cmd = true ∧
      (∃ id lower, s.below = some id ∧ s.l2.findMshr key = some ⟨id, lower⟩ ∧
        lower.allocOnFill = true) ∧
      ∀ upper front, s.l1.findMshr key = some ⟨s.id, upper⟩ →
        upper.targets.list.head? = some front → upper.defers front pkt = false
  | .respond pkt _ _ => s.joined = true → ∀ id mshr, s.below = some id →
      s.l2.answered id pkt = some mshr → s.l2.Fillable rp₂ cfg₂ mshr pkt key
  | .deliver _ _ => s.joined = true → ∀ pkt mshr, s.answer = some pkt →
      s.l1.answered s.id pkt = some mshr → s.l1.Fillable rp₁ cfg₁ mshr pkt key
  | .other₁ e => s.l1.Elsewhere cfg₁ key e
  | .other₂ e => s.l2.Elsewhere cfg₂ key e
  | _ => True

/-! ### What is known of the two MSHRs -/

/-- The MSHR of the first level: its first target opened the miss, and the flag
is set as long as only that one waits. -/
structure Upper (joined : Bool) (mshr : Mshr) : Prop where
  front : ∃ t, mshr.targets.list.head? = some t ∧ t.pkt.opensMiss = true ∧
    t.pkt.line cfg₁.blkSize = key
  denied : joined = false → mshr.mayNotFill = true
  granted : joined = true → mshr.mayNotFill = false ∧ mshr.allocOnFill = true

/-- The MSHR of the second level. -/
structure Lower (joined : Bool) (mshr : Mshr) : Prop where
  plain : ∀ t ∈ mshr.waiting, t.source ≠ .fromSnoop → t.pkt.noFillLower = false
  granted : joined = true → mshr.mayNotFill = false ∧ mshr.allocOnFill = true

/-- Both levels protect against speculative fills. -/
structure Guards (cfg₁ cfg₂ : CacheParams) : Prop where
  level₁ : cfg₁.cacheLevel = 1
  level₂ : cfg₂.cacheLevel = 2
  nofill₁ : cfg₁.nofillEn = true
  nofill₂ : cfg₂.nofillEn = true
  pfAck₁ : cfg₁.pfAckEn = true
  pfAck₂ : cfg₂.pfAckEn = true
  blkSize : cfg₂.blkSize = cfg₁.blkSize

/-- The invariant of a run whose steps are `Prompt`. -/
structure Followed (s : Miss R₁ R₂) : Prop where
  ordered₁ : s.l1.Ordered
  ordered₂ : s.l2.Ordered
  upper : s.done = false → s.l1.tags.findBlock rp₁ key = none ∧
    ∃ mshr, s.l1.findMshr key = some ⟨s.id, mshr⟩ ∧ Upper cfg₁ key s.joined mshr
  unsent : s.sent = false → s.l2.tags.findBlock rp₂ key = none ∧ s.l2.findMshr key = none ∧
    s.below = none ∧ s.answer = none ∧ s.joined = false ∧ s.done = false
  lower : ∀ id, s.below = some id → s.done = false ∧ s.l2.tags.findBlock rp₂ key = none ∧
    ∃ mshr, s.l2.findMshr key = some ⟨id, mshr⟩ ∧ Lower s.joined mshr
  answered : ∀ pkt, s.answer = some pkt → s.done = false ∧ s.below = none ∧
    (s.joined = true → pkt.noFillLower = false ∧ s.filledBelow = true)

theorem Upper.pending {joined : Bool} {mshr : Mshr} (upper : Upper cfg₁ key joined mshr)
    (pending : Bool) : Upper cfg₁ key joined { mshr with downstreamPending := pending } :=
  ⟨upper.front, upper.denied, upper.granted⟩

theorem Lower.pending {joined : Bool} {mshr : Mshr} (lower : Lower joined mshr)
    (pending : Bool) : Lower joined { mshr with downstreamPending := pending } :=
  ⟨lower.plain, lower.granted⟩

/-! ### Each step keeps the invariant -/

section Steps

variable {rp₁ rp₂ cfg₁ cfg₂ key} {s t : Miss R₁ R₂} {e : CacheEvent}

theorem other₁_followed (followed : Followed rp₁ rp₂ cfg₁ key s)
    (elsewhere : s.l1.Elsewhere cfg₁ key e)
    (taken : s.handle rp₁ rp₂ cfg₁ cfg₂ key (.other₁ e) = .ok t) : Followed rp₁ rp₂ cfg₁ key t := by
  obtain ⟨⟨l1, out⟩, handled, same⟩ := bind_ok_iff.mp taken
  cases same
  have ordered := Cache.handle_ordered followed.ordered₁ handled
  have line := Cache.handle_lineKept followed.ordered₁ elsewhere handled
  refine { followed with ordered₁ := ordered, upper := fun running => ?_ }
  obtain ⟨absent, mshr, found, upper⟩ := followed.upper running
  obtain ⟨pending, found⟩ := line.some s.id mshr found
  exact ⟨Cache.handle_absent elsewhere handled absent, _, found, upper.pending cfg₁ key pending⟩

theorem other₂_followed (followed : Followed rp₁ rp₂ cfg₁ key s)
    (elsewhere : s.l2.Elsewhere cfg₂ key e)
    (taken : s.handle rp₁ rp₂ cfg₁ cfg₂ key (.other₂ e) = .ok t) : Followed rp₁ rp₂ cfg₁ key t := by
  obtain ⟨⟨l2, out⟩, handled, same⟩ := bind_ok_iff.mp taken
  cases same
  have ordered := Cache.handle_ordered followed.ordered₂ handled
  have line := Cache.handle_lineKept followed.ordered₂ elsewhere handled
  have stays := Cache.handle_absent elsewhere handled
  refine { followed with ordered₂ := ordered, unsent := fun waits => ?_, lower := fun id below =>
    ?_ }
  · obtain ⟨absent, idle, rest⟩ := followed.unsent waits
    exact ⟨stays absent, line.none idle, rest⟩
  · obtain ⟨running, absent, mshr, found, lower⟩ := followed.lower id below
    obtain ⟨pending, found⟩ := line.some id mshr found
    exact ⟨running, stays absent, _, found, lower.pending pending⟩

variable {mshr : Mshr} {pkt : Packet} {joined : Bool} {tick : Nat} {above : Packet → Bool}

theorem Upper.join {after : Mshr} {order : Nat} (upper : Upper cfg₁ key false mshr)
    (mayFill : pkt.mayNotFill = false)
    (prompt : ∀ front, mshr.targets.list.head? = some front → mshr.defers front pkt = false)
    (added : mshr.allocateTarget pkt order true = some after) : Upper cfg₁ key true after := by
  obtain ⟨front, first, opens, line⟩ := upper.front
  unfold Mshr.allocateTarget at added
  simp only [first, Option.bind_eq_bind, Option.bind_some, prompt front first] at added
  split at added <;> cases added
  refine ⟨⟨front, ?_, opens, line⟩, fun never => absurd never (by decide), fun _ => ⟨?_, ?_⟩⟩
  · simp [TargetList.add, List.head?_append, first]
  · simp [Mshr.mayNotFill, TargetList.add, mayFill]
  · simp [Mshr.allocOnFill, TargetList.add]

theorem Lower.grant (lower : Lower joined mshr) (allocates : mshr.allocOnFill = true) :
    Lower true (mshr.updateMayNotFill false) := by
  have wanted : mshr.targets.flags.allocOnFill = true := allocates
  refine ⟨fun t waits => lower.plain t ?_, fun _ => ?_⟩
  · simpa [Mshr.waiting, Mshr.updateMayNotFill, TargetList.updateMayNotFill, wanted] using waits
  · simp [Mshr.mayNotFill, Mshr.allocOnFill, Mshr.updateMayNotFill, TargetList.updateMayNotFill,
      wanted]

theorem join_followed (guards : Guards cfg₁ cfg₂) (followed : Followed rp₁ rp₂ cfg₁ key s)
    (prompt : s.Prompt rp₁ rp₂ cfg₁ cfg₂ key (.join pkt tick above))
    (taken : s.handle rp₁ rp₂ cfg₁ cfg₂ key (.join pkt tick above) = .ok t) :
    Followed rp₁ rp₂ cfg₁ key t := by
  obtain ⟨aligned, allocates, ⟨id, lower, below, found₂, wanted⟩, prompt⟩ := prompt
  unfold handle at taken
  dsimp only at taken
  split at taken
  next may =>
    simp only [joins, Bool.and_eq_true, Bool.not_eq_true', decide_eq_true_eq, Packet.isDemand]
      at may
    obtain ⟨⟨⟨⟨alone, running⟩, opens, demand⟩, mayFill⟩, line⟩ := may
    obtain ⟨absent₁, mshr, found₁, upper⟩ := followed.upper running
    obtain ⟨_, absent₂, other, found, known⟩ := followed.lower id below
    obtain rfl : lower = other := by
      rw [found₂] at found
      cases found
      rfl
    obtain ⟨⟨l1, out⟩, received, taken⟩ := bind_ok_iff.mp taken
    obtain ⟨_, acked, taken⟩ := bind_ok_iff.mp taken
    cases taken
    obtain ⟨after, added, list, tags, acks⟩ := Cache.recvTimingReq_joins rp₁ cfg₁
       opens (line ▸ absent₁) (line ▸ found₁) received
    -- the first level sends the PfAck, and it carries the address of the block
    rw [alone] at upper
    have raw : pkt.rawLine = key := by
      rw [← line] at aligned ⊢
      simp only [Packet.rawLine, Packet.line] at aligned ⊢
      rw [← aligned]
    have acks : out.pfAck = [pkt] := by
      simpa [demand, mayFill, guards.level₁, upper.denied rfl] using acks
    -- the PfAck finds the MSHR of the second level and clears its flag
    have granted : recvPfAcks cfg₂ s.l2 [pkt] = .ok (s.l2.grantFill ⟨id, lower⟩) := by
      simp [recvPfAcks, Cache.recvPfAck, demand, raw ▸ found₂, guards.pfAck₂, bind, Except.bind]
    rw [acks, granted] at acked
    cases acked
    rw [allocates] at added
    have line₁ := Mshr.allocateTarget_line added
    have line₂ := Mshr.updateMayNotFill_line lower false
    refine ⟨?_, ?_, fun _ => ⟨?_, after, ?_, ?_⟩, fun unsent => ?_, fun own mine => ?_,
      fun answer arrives => ?_⟩
    · exact Cache.handle_ordered (e := .recvTimingReq pkt tick above) followed.ordered₁ received
    · refine followed.ordered₂.of_sublist ?_ (Nat.le_refl _)
      rw [Cache.grantFill, Cache.setMshr_ids]
    · rw [tags]
      exact absent₁
    · rw [Cache.findMshr, list]
      exact Cache.setMshr_findMshr_self followed.ordered₁ found₁ line₁
    · exact upper.join mayFill (prompt mshr · found₁) added
    · have none := (followed.unsent unsent).2.2.1
      rw [none] at below
      cases below
    · rw [below] at mine
      cases mine
      exact ⟨running, absent₂, _, Cache.setMshr_findMshr_self followed.ordered₂
        found₂ line₂, known.grant wanted⟩
    · have none := (followed.answered answer arrives).2.1
      rw [none] at below
      cases below
  next => cases taken

theorem Upper.send (upper : Upper cfg₁ key joined mshr) (isForward pendingModifiedResp : Bool) :
    Upper cfg₁ key joined (Mshr.markInService { mshr with isForward } pendingModifiedResp) :=
  ⟨upper.front, upper.denied, upper.granted⟩

theorem Lower.send (lower : Lower joined mshr) (isForward pendingModifiedResp : Bool) :
    Lower joined (Mshr.markInService { mshr with isForward } pendingModifiedResp) :=
  ⟨lower.plain, lower.granted⟩

theorem Lower.opened (cfg₂ : CacheParams) (pkt : Packet) (order : Nat)
    (allocOnFill clearNoFill : Bool) (plain : pkt.noFillLower = false) :
    Lower false (Mshr.allocateMissBuffer cfg₂.blkSize pkt order allocOnFill clearNoFill) := by
  have calm := Mshr.allocateMissBuffer_calm cfg₂.blkSize order allocOnFill clearNoFill plain
  exact ⟨calm.plain, fun never => absurd never (by decide)⟩

theorem send_followed (guards : Guards cfg₁ cfg₂) {pendingModifiedResp : Bool}
    {above₁ above₂ : Packet → Bool} (followed : Followed rp₁ rp₂ cfg₁ key s)
    (taken : s.handle rp₁ rp₂ cfg₁ cfg₂ key
      (.send pendingModifiedResp tick above₁ above₂) = .ok t) : Followed rp₁ rp₂ cfg₁ key t := by
  unfold handle at taken
  dsimp only at taken
  split at taken
  · cases taken
  next waits =>
    rw [Bool.not_eq_true] at waits
    obtain ⟨absent₂, idle, _, answer, alone, running⟩ := followed.unsent waits
    obtain ⟨absent₁, _, found₁, upper⟩ := followed.upper running
    obtain ⟨⟨l1, out⟩, sent, taken⟩ := bind_ok_iff.mp taken
    obtain ⟨_, first, taken⟩ := bind_ok_iff.mp taken
    obtain ⟨⟨l2, up⟩, received, taken⟩ := bind_ok_iff.mp taken
    cases taken
    obtain ⟨_, miss, isForward, pointer, made, down, list, kept⟩ :=
      Cache.sendMSHRQueuePacket_ok sent
    -- the MSHR that is sent is the one the miss is followed by
    have mine := followed.ordered₁.findId _ (Cache.findMshr_mem found₁)
    rw [mine] at pointer
    cases pointer
    rw [down, List.head?_cons, Cache.orFail_ok_iff, Option.some.injEq] at first
    subst first
    obtain ⟨_, head, opens, line⟩ := upper.front
    obtain ⟨opens, same, plain⟩ := Cache.missPacket_opens rp₁ cfg₁ head opens made
    have line : miss.line cfg₂.blkSize = key := by rw [guards.blkSize, same, line]
    -- the second level has no MSHR for the line, so it opens one for this packet
    obtain ⟨queue, tags⟩ := Cache.recvTimingReq_opens rp₂ cfg₂
      opens (line ▸ absent₂) (line ▸ idle) received
    have found₂ := Cache.allocateMissBuffer_findMshr_self (!cfg₂.nofillEn)
      line (miss.opensMiss_iff.mp opens).2.1 idle
    rw [Cache.findMshr, ← queue.mshrs] at found₂
    change l2.findMshr key = _ at found₂
    refine ⟨?_, ?_, fun _ => ⟨?_, _, ?_, upper.send isForward pendingModifiedResp⟩,
      fun never => absurd never (by simp), fun own mine => ?_, fun reply arrives => ?_⟩
    · exact Cache.handle_ordered (e := .sendMSHRQueuePacket s.id pendingModifiedResp above₁)
        followed.ordered₁ sent
    · exact Cache.handle_ordered (e := .recvTimingReq miss tick above₂) followed.ordered₂ received
    · exact kept.absent rp₁ absent₁
    · rw [Cache.findMshr, list]
      exact Cache.setMshr_findMshr_self followed.ordered₁ found₁ ⟨rfl, rfl⟩
    · simp only [found₂, Option.map_some, Option.some.injEq] at mine
      subst mine
      refine ⟨running, by rw [tags]; exact absent₂, _, found₂, ?_⟩
      rw [alone]
      exact .opened cfg₂ miss s.l2.order _ _ plain
    · simp only [answer] at arrives
      cases arrives

theorem forward_followed {pendingModifiedResp : Bool} {above : Packet → Bool}
    (followed : Followed rp₁ rp₂ cfg₁ key s) (taken : s.handle rp₁ rp₂ cfg₁ cfg₂ key
      (.forward pendingModifiedResp above) = .ok t) : Followed rp₁ rp₂ cfg₁ key t := by
  obtain ⟨id, below, taken⟩ := bind_ok_iff.mp taken
  obtain ⟨⟨l2, out⟩, sent, taken⟩ := bind_ok_iff.mp taken
  cases taken
  rw [Cache.orFail_ok_iff] at below
  obtain ⟨running, absent, _, found, lower⟩ := followed.lower id below
  obtain ⟨_, miss, isForward, pointer, _, _, list, kept⟩ := Cache.sendMSHRQueuePacket_ok sent
  -- the MSHR that is sent is the one of the miss
  have mine := followed.ordered₂.findId _ (Cache.findMshr_mem found)
  rw [mine] at pointer
  cases pointer
  have ordered := Cache.handle_ordered (e := .sendMSHRQueuePacket id pendingModifiedResp above)
    followed.ordered₂ sent
  refine { followed with
    ordered₂ := ordered, unsent := fun waits => ?_, lower := fun own mine => ?_ }
  · -- a miss that has an MSHR below has been sent
    have none := (followed.unsent waits).2.2.1
    rw [below] at none
    cases none
  · rw [below] at mine
    cases mine
    refine ⟨running, kept.absent rp₂ absent, _, ?_, lower.send isForward pendingModifiedResp⟩
    rw [Cache.findMshr, list]
    exact Cache.setMshr_findMshr_self followed.ordered₂ found ⟨rfl, rfl⟩

theorem respond_followed (guards : Guards cfg₁ cfg₂) (followed : Followed rp₁ rp₂ cfg₁ key s)
    (prompt : s.Prompt rp₁ rp₂ cfg₁ cfg₂ key (.respond pkt tick above))
    (taken : s.handle rp₁ rp₂ cfg₁ cfg₂ key (.respond pkt tick above) = .ok t) :
    Followed rp₁ rp₂ cfg₁ key t := by
  unfold handle at taken
  dsimp only at taken
  split at taken
  next line =>
    obtain ⟨id, below, taken⟩ := bind_ok_iff.mp taken
    obtain ⟨⟨l2, up⟩, received, taken⟩ := bind_ok_iff.mp taken
    cases taken
    rw [Cache.orFail_ok_iff] at below
    obtain ⟨running, absent, mshr, found, lower⟩ := followed.lower id below
    obtain ⟨r⟩ := Cache.recvTimingResp_ok received
    have mine : r.mshr = mshr := Cache.answered_tracked followed.ordered₂ found r.answered
    have handled : s.l2.handle rp₂ cfg₂ (.recvTimingResp id pkt tick above) =
        .ok (l2, { up }) := by
      simp [Cache.handle, received, Except.map]
    refine { followed with
      ordered₂ := Cache.handle_ordered followed.ordered₂ handled
      unsent := fun waits => ?_, lower := fun own never => absurd never (by simp)
      answered := fun reply arrives => ⟨running, rfl, fun joined => ?_⟩ }
    · have none := (followed.unsent waits).2.2.1
      rw [below] at none
      cases none
    · have fillable := prompt joined id r.mshr below r.answered
      obtain ⟨granted, allocates⟩ := lower.granted joined
      -- the last level takes no response with the flag
      have unflagged : pkt.noFillLower = false := (Cache.fillStage_flag rp₂ cfg₂
          r.fills).2.2 fillable.1 guards.level₂
      have allowed : Cache.allowFill r.mshr pkt = true := by
        rw [mine]
        simp [Cache.allowFill, granted, allocates, unflagged]
      obtain ⟨installs, same⟩ := r.installs rp₂ cfg₂ (line ▸ fillable) allowed (line ▸ absent)
      refine ⟨?_, installs⟩
      have below : r.resp.noFillLower = false := by rw [same, unflagged]
      exact r.unflagged rp₂ cfg₂ (mine ▸ lower.plain) below reply (List.mem_of_mem_head? arrives)
  next => cases taken

theorem deliver_followed (followed : Followed rp₁ rp₂ cfg₁ key s)
    (taken : s.handle rp₁ rp₂ cfg₁ cfg₂ key (.deliver tick above) = .ok t) :
    Followed rp₁ rp₂ cfg₁ key t := by
  obtain ⟨pkt, answer, taken⟩ := bind_ok_iff.mp taken
  rw [Cache.orFail_ok_iff] at answer
  obtain ⟨_, below, _⟩ := followed.answered pkt answer
  dsimp only at taken
  split at taken
  · obtain ⟨⟨l1, up⟩, received, taken⟩ := bind_ok_iff.mp taken
    cases taken
    have handled : s.l1.handle rp₁ cfg₁ (.recvTimingResp s.id pkt tick above) =
        .ok (l1, { up }) := by
      simp [Cache.handle, received, Except.map]
    refine ⟨Cache.handle_ordered followed.ordered₁ handled,
      followed.ordered₂, fun never => absurd never (by simp), fun waits => ?_, fun id mine => ?_,
      fun reply never => absurd never (by simp)⟩
    · -- a miss that is answered has been sent
      have none := (followed.unsent waits).2.2.2.1
      rw [answer] at none
      cases none
    · rw [below] at mine
      cases mine
  · cases taken

theorem step_followed (guards : Guards cfg₁ cfg₂) (s : Miss R₁ R₂) (e : MissEvent)
    (t : Miss R₁ R₂) (followed : Followed rp₁ rp₂ cfg₁ key s)
    (prompt : s.Prompt rp₁ rp₂ cfg₁ cfg₂ key e) (taken : s.step rp₁ rp₂ cfg₁ cfg₂ key e = some t) :
    Followed rp₁ rp₂ cfg₁ key t := by
  have taken := toOption_some_iff.mp taken
  cases e with
  | join => exact join_followed guards followed prompt taken
  | send =>
    exact send_followed guards followed taken
  | forward pendingModifiedResp above =>
    exact forward_followed followed taken
  | respond => exact respond_followed guards followed prompt taken
  | deliver => exact deliver_followed followed taken
  | other₁ e => exact other₁_followed followed prompt taken
  | other₂ e => exact other₂_followed followed prompt taken

/-- Once both flags are clear, the response of the second level fills the first. -/
theorem followed_agreed (s : Miss R₁ R₂) (e : MissEvent) (followed : Followed rp₁ rp₂ cfg₁ key s)
    (prompt : s.Prompt rp₁ rp₂ cfg₁ cfg₂ key e) : s.Agreed rp₁ rp₂ cfg₁ cfg₂ key e := by
  rintro tick above rfl joined pkt after answer taken
  have taken := toOption_some_iff.mp taken
  obtain ⟨running, _, known⟩ := followed.answered pkt answer
  obtain ⟨unflagged, filled⟩ := known joined
  obtain ⟨absent, mshr, found, upper⟩ := followed.upper running
  obtain ⟨granted, allocates⟩ := upper.granted joined
  refine ⟨unflagged, filled, ?_⟩
  obtain ⟨_, same, taken⟩ := bind_ok_iff.mp taken
  rw [Cache.orFail_ok_iff, answer, Option.some.injEq] at same
  subst same
  dsimp only at taken
  split at taken
  next line =>
    obtain ⟨⟨_, _⟩, received, _⟩ := bind_ok_iff.mp taken
    obtain ⟨r⟩ := Cache.recvTimingResp_ok received
    -- the response meets the MSHR that is followed, which has its permission to fill
    have mine : r.mshr = mshr := Cache.answered_tracked followed.ordered₁ found r.answered
    have fillable := prompt joined pkt r.mshr answer r.answered
    have allowed : Cache.allowFill r.mshr pkt = true := by
      rw [mine]
      simp [Cache.allowFill, granted, allocates, unflagged]
    exact (r.installs rp₁ cfg₁ (line ▸ fillable) allowed (line ▸ absent)).1
  next => cases taken

end Steps

/-! ### Every run -/

/-- The miss after the first level has allocated its MSHR. -/
def opened (l1 : Cache R₁) (l2 : Cache R₂) (id : Nat) : Miss R₁ R₂ := { l1, l2, id }

theorem opened_followed (guards : Guards cfg₁ cfg₂) {before l1 : Cache R₁} {l2 : Cache R₂}
    {pkt : Packet} {tick : Nat} {above : Packet → Bool} {out : Cache.Sent}
    (ordered₁ : before.Ordered) (ordered₂ : l2.Ordered)
    (speculative : pkt.isDemand = true ∧ pkt.mayNotFill = true) (line : pkt.line cfg₁.blkSize = key)
    (absent₁ : before.tags.findBlock rp₁ key = none ∧ before.findMshr key = none)
    (absent₂ : l2.tags.findBlock rp₂ key = none ∧ l2.findMshr key = none)
    (missed : before.recvTimingReq rp₁ cfg₁ above pkt tick = .ok (l1, out)) :
    Followed rp₁ rp₂ cfg₁ key (opened l1 l2 before.order) := by
  obtain ⟨demand, denied⟩ := speculative
  simp only [Packet.isDemand, Bool.and_eq_true] at demand
  obtain ⟨opens, _⟩ := demand
  -- the first level misses and opens an MSHR that carries the denial
  obtain ⟨queue, tags⟩ := Cache.recvTimingReq_opens rp₁ cfg₁
    opens (line ▸ absent₁.1) (line ▸ absent₁.2) missed
  have found := Cache.allocateMissBuffer_findMshr_self (!cfg₁.nofillEn)
    line (pkt.opensMiss_iff.mp opens).2.1 absent₁.2
  rw [Cache.findMshr, ← queue.mshrs] at found
  change l1.findMshr key = _ at found
  rw [guards.nofill₁] at found
  refine ⟨?_, ordered₂, fun _ => ⟨tags ▸ absent₁.1, _, found, ?_⟩,
    fun _ => ⟨absent₂.1, absent₂.2, rfl, rfl, rfl, rfl⟩, fun id never =>
      absurd never (by simp [opened]),
    fun reply never => absurd never (by simp [opened])⟩
  · exact Cache.handle_ordered (e := .recvTimingReq pkt tick above) ordered₁ missed
  · refine ⟨⟨_, rfl, opens, line⟩, fun _ => ?_, fun never => absurd never (by simp [opened])⟩
    simp [Mshr.mayNotFill, Mshr.allocateMissBuffer, Mshr.allocate, TargetList.add,
      TargetList.init, TargetFlags.reset, denied]

/-- A speculative request opens a miss of a line that both levels lack. In every
run whose steps are `Prompt`, a request that may fill and joins the miss lets
both levels fill. -/
theorem fill_decision_agrees (guards : Guards cfg₁ cfg₂) (before l1 : Cache R₁)
    (l2 : Cache R₂) (pkt : Packet) (tick : Nat) (above : Packet → Bool) (out : Cache.Sent)
    (ordered₁ : before.Ordered) (ordered₂ : l2.Ordered)
    (speculative : pkt.isDemand = true ∧ pkt.mayNotFill = true) (line : pkt.line cfg₁.blkSize = key)
    (absent₁ : before.tags.findBlock rp₁ key = none ∧ before.findMshr key = none)
    (absent₂ : l2.tags.findBlock rp₂ key = none ∧ l2.findMshr key = none)
    (missed : before.recvTimingReq rp₁ cfg₁ above pkt tick = .ok (l1, out))
    (events : List MissEvent) (along : Runs.Along (step rp₁ rp₂ cfg₁ cfg₂ key)
      (Prompt rp₁ rp₂ cfg₁ cfg₂ key) (opened l1 l2 before.order) events) :
    Runs.Along (step rp₁ rp₂ cfg₁ cfg₂ key)
      (Agreed rp₁ rp₂ cfg₁ cfg₂ key) (opened l1 l2 before.order) events :=
  Runs.along_of_invariant (step_followed guards) followed_agreed _ events
    (opened_followed rp₁ rp₂ cfg₁ cfg₂ key guards
      ordered₁ ordered₂ speculative line absent₁ absent₂ missed) along

/-! ### One miss in two caches of one block -/

/-- A load that may fill. -/
def mayFillLoad (addr : Addr) : Packet :=
  Packet.ofRequest { flags := { demandFetch := true } } .readReq addr 8

/-- The first level after a speculative load has missed. -/
def speculativeMiss : Cache Unit :=
  (Cache.empty ()).allocateMissBuffer (.guarded 1) (.noFillLoad 0) false

def firstLine : LineKey := ⟨0, false, 0⟩

def joinLoad (addr : Addr) : MissEvent := .join (mayFillLoad addr) 1 fun _ => false

def sendMiss : MissEvent := .send false 2 (fun _ => false) fun _ => false

/-- The second level asks memory, and the answer goes all the way up. -/
def answerMiss : List MissEvent :=
  [.forward false fun _ => false,
   .respond { Packet.noFillRead with cmd := .readResp } 3 fun _ => false,
   .deliver 4 fun _ => false]

theorem promptLoad_agrees : Runs.Along (step oneBlock oneBlock (.guarded 1) (.guarded 2) firstLine)
      (Agreed oneBlock oneBlock (.guarded 1) (.guarded 2) firstLine)
      (opened speculativeMiss (Cache.empty ()) 0) (sendMiss :: joinLoad 0 :: answerMiss) := by
  refine fill_decision_agrees oneBlock oneBlock (.guarded 1) (.guarded 2) firstLine
    ⟨rfl, rfl, rfl, rfl, rfl, rfl, rfl⟩ (Cache.empty ()) speculativeMiss (Cache.empty ())
    (.noFillLoad 0) 0 (fun _ => false) {} (Cache.empty_ordered ()) (Cache.empty_ordered ())
    ⟨by decide, rfl⟩ rfl ⟨rfl, rfl⟩ ⟨rfl, rfl⟩ rfl _ ?_
  -- the load joins after the send, so the grant is in time at both levels
  refine Runs.along_cons rfl trivial (Runs.along_cons rfl ?_ ?_)
  · refine ⟨rfl, rfl, ⟨_, _, rfl, rfl, rfl⟩, fun upper front found first => ?_⟩
    cases found
    cases first
    rfl
  · refine Runs.along_cons rfl trivial (Runs.along_cons rfl ?_ ?_)
    · intro _ _ _ below answered
      cases below
      cases answered
      exact ⟨rfl, fun _ _ => rfl, rfl⟩
    · refine Runs.along_cons rfl ?_ trivial
      intro _ _ _ answer answered
      cases answer
      cases answered
      exact ⟨rfl, fun _ _ => rfl, rfl⟩

/-- The second level denies the fill when the load joins before the miss is sent,
and when it carries another address of the block. -/
theorem earlyLoad_and_offsetLoad_disagree :
    ¬ Runs.Along (step oneBlock oneBlock (.guarded 1) (.guarded 2) firstLine)
      (Agreed oneBlock oneBlock (.guarded 1) (.guarded 2) firstLine)
      (opened speculativeMiss (Cache.empty ()) 0) (joinLoad 0 :: sendMiss :: answerMiss) ∧
    ¬ Runs.Along (step oneBlock oneBlock (.guarded 1) (.guarded 2) firstLine)
      (Agreed oneBlock oneBlock (.guarded 1) (.guarded 2) firstLine)
      (opened speculativeMiss (Cache.empty ()) 0) (sendMiss :: joinLoad 8 :: answerMiss) := by
  constructor <;> intro agreed
  · have last := agreed.2 _ rfl |>.2 _ rfl |>.2 _ rfl |>.2 _ rfl |>.1
    exact absurd (last 4 _ rfl rfl _ _ rfl rfl).1 (by decide)
  · have last := agreed.2 _ rfl |>.2 _ rfl |>.2 _ rfl |>.2 _ rfl |>.1
    exact absurd (last 4 _ rfl rfl _ _ rfl rfl).1 (by decide)

end Miss

end RasCache.Mem
