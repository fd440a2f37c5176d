import RasCache.Mem.Downstream

/-!
# Lines that are being fetched

No cacheable write of a line waits while an MSHR is in service that will fill the
line, unless one of four events comes in between: an uncacheable access that
flushes the block, a WriteClean from above that passes the cache by, a snoop that
forces a WriteClean, or the send of the MSHR itself while the write waits.
-/
namespace RasCache.Mem

open Outcomes

variable {R : Type}

/-! ### MSHRs in service -/

namespace Mshr

/-- The request is sent, and its response fills the line. -/
def filling (mshr : Mshr) : Bool := mshr.inService && !mshr.isForward && !mshr.uncacheable

theorem filling_iff (mshr : Mshr) : mshr.filling = true ↔
      mshr.inService = true ∧ mshr.isForward = false ∧ mshr.uncacheable = false := by
  simp only [filling, Bool.and_eq_true, Bool.not_eq_true']
  exact and_assoc

/-- The three flags stay as they are. -/
structure SameService (before after : Mshr) : Prop where
  inService : after.inService = before.inService
  isForward : after.isForward = before.isForward
  line : Cache.SameLine before after

variable {after mshr : Mshr} {pkt : Packet} {before : Mshr} {order : Nat}

theorem SameService.filling (same : SameService before after) : after.filling = before.filling := by
  rw [Mshr.filling, same.inService, same.isForward, same.line.uncacheable, Mshr.filling]

theorem allocateTarget_service {allocOnFill : Bool}
    (added : mshr.allocateTarget pkt order allocOnFill = some after) : SameService mshr after := by
  refine ⟨?_, ?_, allocateTarget_line added⟩
  · exact allocateTarget_inService added
  · cases allocateTarget_cases added <;> rfl

theorem handleSnoop_service {result : SnoopResult}
    (handled : mshr.handleSnoop pkt order = some result) : SameService mshr result.mshr := by
  refine ⟨?_, ?_, handleSnoop_line handled⟩
  · exact handleSnoop_inService handled
  · have start : (mshr.withoutUpgrades pkt).isForward = mshr.isForward := by
      rcases withoutUpgrades_cases mshr pkt with same | replaced
      · rw [same]
      · rw [replaced]
    cases handleSnoop_cases handled with
    | replaced => rfl
    | ignored => rfl
    | due => exact start
    | saved =>
      rw [← start]
      unfold snoopInService saveSnoop
      dsimp only
      split <;> rfl

theorem forceDeallocateTarget_inService (popped : mshr.forceDeallocateTarget = some (some after)) :
    after.inService = mshr.inService := by
  obtain ⟨_, _, _, outcome⟩ := forceDeallocateTarget_cases popped
  rcases outcome with ⟨_, promoted⟩ | ⟨_, rfl⟩
  · unfold promoteDeferredTargets at promoted
    split at promoted <;> cases promoted
    rfl
  · rfl

/-- The targets of an uncacheable MSHR are accesses of the CPU side, none of them a
clean operation, so it is forwarded. -/
structure Direct (mshr : Mshr) : Prop where
  targets : ∀ t ∈ mshr.waiting,
    t.source ≠ .fromSnoop ∧ t.pkt.req.flags.uncacheable = true ∧ t.pkt.isClean = false
  forward : mshr.inService = true → mshr.isForward = true

theorem Direct.of_subset (direct : before.Direct) (fewer : ∀ t ∈ after.waiting, t ∈ before.waiting)
    (idle : after.inService = false) : after.Direct := by
  refine ⟨fun t mem => direct.targets t (fewer t mem), fun serving => ?_⟩
  rw [idle] at serving
  cases serving

theorem allocateMissBuffer_direct (blkSize : Nat) (order : Nat) (allocOnFill clearNoFill : Bool)
    (uncacheable : pkt.req.flags.uncacheable = true) (access : pkt.isClean = false) :
    (allocateMissBuffer blkSize pkt order allocOnFill clearNoFill).Direct := by
  have first : (allocate (Packet.blkAlign pkt.addr blkSize) blkSize pkt order
      allocOnFill).Direct := by
    refine ⟨fun t mem => ?_, fun serving => by cases serving⟩
    obtain rfl := List.mem_singleton.mp mem
    refine ⟨?_, uncacheable, access⟩
    dsimp only
    split <;> decide
  unfold allocateMissBuffer
  dsimp only
  split
  · refine first.of_subset (fun t mem => ?_) rfl
    unfold waiting at mem ⊢
    rwa [updateMayNotFill_lists] at mem
  · exact first

end Mshr

theorem Packet.isClean_of_access {pkt : Packet} (access : pkt.isRead = true ∨ pkt.isWrite = true) :
    pkt.isClean = false := by
  unfold Packet.isRead Packet.isWrite at access
  unfold Packet.isClean
  cases cmd : pkt.cmd <;> simp [cmd, MemCmd.has, MemCmd.attributes] at access ⊢

namespace Cache

variable {rp : ReplacementPolicy R} {cfg : CacheParams}

/-- Where an MSHR comes from that will fill its line after an event. -/
inductive FillingCase (cache : Cache R) (e : CacheEvent) (now : MshrEntry) : Prop
  | sent (pendingModifiedResp : Bool) (above : Packet → Bool)
      (event : e = .sendMSHRQueuePacket now.id pendingModifiedResp above)
  | kept (old : MshrEntry) (waits : old ∈ cache.mshrs) (named : old.id = now.id)
      (fills : old.mshr.filling = true) (same : SameLine old.mshr now.mshr)
      (other : responds e ≠ some old.id)

variable {cache after : Cache R} {e : CacheEvent} {sent : Sent} {pkt : Packet} {tick : Nat}
  {above : Packet → Bool} {mshr : Mshr} {key : LineKey} {old : MshrEntry}

/-- Only a send puts an MSHR in service, and a response takes it out. -/
theorem filling_origin (handled : cache.handle rp cfg e = .ok (after, sent)) :
    ∀ now ∈ after.mshrs, now.mshr.filling = true → FillingCase cache e now := by
  intro now mem fills
  -- an MSHR that is not in service fills nothing
  have idle (mshr : Mshr) (unsent : mshr.inService = false) : mshr.filling = false := by
    simp [Mshr.filling, unsent]
  have change := handle_mshrs handled
  cases change.entries now mem with
  | untouched _ _ waits other => exact .kept now waits rfl fills ⟨rfl, rfl⟩ other
  | missed _ _ _ _ clearNoFill =>
    rw [idle _ (by cases clearNoFill <;> rfl)] at fills
    cases fills
  | fetched =>
    rw [idle _ rfl] at fills
    cases fills
  | coalesced _ _ _ old _ waits _ added =>
    have same := Mshr.allocateTarget_service added
    rw [same.filling] at fills
    exact .kept old waits rfl fills same.line (by simp [responds])
  | sent pendingModifiedResp above => exact .sent pendingModifiedResp above rfl
  | granted _ old waits _ quiet =>
    refine .kept old waits rfl fills (Mshr.updateMayNotFill_line old.mshr false) ?_
    simp [quiet]
  | retired =>
    rw [idle _ rfl] at fills
    cases fills
  | squashed _ _ _ _ popped unsent =>
    have still := (Mshr.forceDeallocateTarget_inService popped).trans unsent
    rw [idle _ still] at fills
    cases fills
  | snooped _ _ old _ waits _ snoop =>
    have same := Mshr.handleSnoop_service snoop
    rw [same.filling] at fills
    exact .kept old waits rfl fills same.line (by simp [responds])
  | pended _ old waits => exact .kept old waits rfl fills ⟨rfl, rfl⟩ (by simp [responds])

/-! ### Uncacheable MSHRs -/

/-- Every uncacheable MSHR is direct. -/
def Uncached (cache : Cache R) : Prop :=
  ∀ entry ∈ cache.mshrs, entry.mshr.uncacheable = true → entry.mshr.Direct

theorem recvTimingReq_uncached (uncacheable : pkt.req.flags.uncacheable = true)
    (ret : cache.recvTimingReq rp cfg above pkt tick = .ok (after, sent)) :
    pkt.isRead = true ∨ pkt.isWrite = true := by
  obtain ⟨found, accessed, ret⟩ := bind_ok_iff.mp ret
  -- an uncacheable request never hits
  have missed : found.satisfied = false ∧ found.pkt = pkt := by
    cases access_cases accessed with
    | flushed => exact ⟨rfl, rfl⟩
    | bypassed => exact ⟨rfl, rfl⟩
    | maintenance cacheable =>
      rw [uncacheable] at cacheable
      cases cacheable
    | merged _ cacheable =>
      rw [uncacheable] at cacheable
      cases cacheable
    | accessed _ _ cacheable =>
      rw [uncacheable] at cacheable
      cases cacheable
  dsimp only at ret
  rw [missed.1, missed.2] at ret
  simp only [Bool.false_eq_true, if_false, handleTimingReqMiss, uncacheable, if_true] at ret
  split at ret
  next writes => exact .inr writes
  next =>
    split at ret
    next reads => exact .inl reads
    next => cases ret

theorem missPacket_direct (direct : mshr.Direct) {isForward : Bool}
    (made : cache.missPacket rp cfg mshr = some (pkt, isForward)) :
    isForward = true ∧ pkt.isClean = false := by
  obtain ⟨front, first, made⟩ := Option.map_eq_some_iff.mp made
  have waits : front ∈ mshr.waiting := List.mem_append_left _ (List.mem_of_head? first)
  obtain ⟨_, uncacheable, access⟩ := direct.targets front waits
  simp only [createMissPacket, uncacheable, Bool.true_or, if_true] at made
  cases made
  exact ⟨rfl, access⟩

theorem handle_uncached (uncached : cache.Uncached)
    (handled : cache.handle rp cfg e = .ok (after, sent)) : after.Uncached := by
  intro entry mem uncacheable
  -- requests, snoops and acks look for cacheable MSHRs
  have visible (key : LineKey) (old : MshrEntry) (found : cache.findMshr key = some old)
      (mshr : Mshr) (same : SameLine old.mshr mshr) : mshr.uncacheable = false := by
    rw [same.uncacheable, findMshr_cacheable found]
  have change := handle_mshrs handled
  have list : entry ∈ after.mshrs := mem
  cases change.entries entry mem with
  | untouched _ _ waits => exact uncached entry waits uncacheable
  | missed req _ _ pkt clearNoFill carries =>
    have flag : pkt.req.flags.uncacheable = true := by
      cases clearNoFill <;> exact uncacheable
    have asked : req.req.flags.uncacheable = true ∧ pkt.cmd = req.cmd := by
      rcases carries with rfl | rfl
      · exact ⟨flag, rfl⟩
      · exact ⟨flag, rfl⟩
    have access := Packet.isClean_of_access (recvTimingReq_uncached asked.1 handled)
    apply Mshr.allocateMissBuffer_direct cfg.blkSize _ _ clearNoFill flag
    rw [Packet.isClean, asked.2]
    exact access
  | fetched => cases uncacheable
  | coalesced _ _ _ old mshr _ hit added =>
    rw [visible _ old hit mshr (Mshr.allocateTarget_line added)] at uncacheable
    cases uncacheable
  | sent _ _ old _ waits found =>
    have direct := uncached old waits uncacheable
    refine ⟨direct.targets, fun _ => ?_⟩
    -- whether it is forwarded is decided by its packet
    obtain ⟨same, _, _, there, made, _, set, _⟩ := sendMSHRQueuePacket_ok handled
    rw [found] at there
    cases there
    rw [(missPacket_direct direct made).1] at set
    rw [set] at list
    exact setMshr_all (P := fun e => e.id = old.id → e.mshr.isForward = true) cache old.id _
      (fun _ _ different same => absurd same different) (fun _ => rfl) _ list rfl
  | granted _ old _ granted =>
    obtain ⟨⟨key, found⟩, _⟩ := grantee_found granted
    rw [visible key old found _ (Mshr.updateMayNotFill_line old.mshr false)] at uncacheable
    cases uncacheable
  | retired _ _ _ old _ _ _ _ _ _ waits promotes extracts promoted =>
    have line := Mshr.retired_line promotes extracts promoted
    have direct := uncached old waits (line.uncacheable ▸ uncacheable)
    refine ⟨fun t mem => direct.targets t ?_, fun serving => by cases serving⟩
    exact Mshr.retired_subset promotes extracts promoted t mem
  | squashed old _ waits _ popped idle =>
    have line := Mshr.forceDeallocateTarget_line popped
    have direct := uncached old waits (line.uncacheable ▸ uncacheable)
    exact direct.of_subset (Mshr.popped_subset popped)
      ((Mshr.forceDeallocateTarget_inService popped).trans idle)
  | snooped _ _ old _ _ hit snoop =>
    rw [visible _ old hit _ (Mshr.handleSnoop_line snoop)] at uncacheable
    cases uncacheable
  | pended _ old waits =>
    have direct := uncached old waits uncacheable
    exact ⟨direct.targets, direct.forward⟩

/-! ### Writes of a line that is being fetched -/

theorem writesOf_nil_iff (cache : Cache R) (key : LineKey) :
    cache.writesOf cfg key = [] ↔ ∀ p ∈ cache.writeBuffer, seen cfg key p = false := by
  simp [writesOf, List.filter_eq_nil_iff]

/-- The block of a line that has an MSHR is no victim. -/
theorem allocateBlock_fetched {line : LineKey} {found : Option Place} {writebacks : List Packet}
    (sound : cache.tags.Sound rp cfg.blkSize) (waits : cache.findMshr key ≠ none)
    (ret : cache.allocateBlock rp cfg line tick = .ok (found, after, writebacks)) :
    writebacks.filter (seen cfg key) = [] := by
  cases allocateBlock_cases ret with
  | refused | unused => rfl
  | evicted place _ _ _ _ valid idle =>
    have other : (cache.tags.blk place).key ≠ key := by
      intro same
      rw [same] at idle
      exact waits idle
    rw [List.filter_singleton, evictionPacket_seen _ (sound.aligned place valid)]
    simp [other]

variable {entry : MshrEntry} {found : Access R}

theorem BlkAccess.fetched {place : Option Place} (key : LineKey)
    (sound : cache.tags.Sound rp cfg.blkSize) (waits : cache.findMshr key ≠ none)
    (outcome : BlkAccess rp cfg cache pkt place tick found) :
    found.writebacks.filter (seen cfg key) = [] := by
  have made (out : Option Place) (room : Cache R) (writebacks : List Packet)
      (took : cache.blockForWrite rp cfg pkt place tick = .ok (out, room, writebacks)) :
      writebacks.filter (seen cfg key) = [] := by
    cases blockForWrite_cases took with
    | present => rfl
    | denied => rfl
    | refused _ _ allocated =>
      exact allocateBlock_fetched sound waits allocated
    | allocated _ _ _ allocated =>
      exact allocateBlock_fetched sound waits allocated
  cases outcome with
  | unplaced room writebacks _ took => exact made none room writebacks took
  | written used room writebacks _ took => exact made (some used) room writebacks took
  | _ => rfl

variable (rp cfg) in
/-- An uncacheable access flushes the block, and what it leaves is kept. -/
def flushes (cache : Cache R) (pkt : Packet) (above : Packet → Bool) : Bool :=
  pkt.req.flags.uncacheable &&
    (cache.lineBlk rp (pkt.line cfg.blkSize)).any fun blk =>
      (passOn above (evictionPacket cfg blk)).isSome

variable (rp cfg) in
/-- A WriteClean that the block does not absorb. -/
def passesBy (cache : Cache R) (pkt : Packet) (tick : Nat) : Bool :=
  !pkt.req.flags.uncacheable && decide (pkt.cmd = .writeClean) &&
    match cache.access rp cfg pkt tick with
    | .ok found => !found.satisfied
    | .error _ => false

variable (rp cfg) in
/-- A snoop that writes a dirty block back. -/
def cleans (cache : Cache R) (pkt : Packet) : Bool :=
  pkt.isClean && (cache.lineBlk rp (pkt.line cfg.blkSize)).any fun blk => blk.dirty

section

variable (sound : cache.tags.Sound rp cfg.blkSize) (waits : cache.findMshr key ≠ none)
include sound waits

/-- The access itself leaves no write of the line. -/
theorem access_clear (calm : cache.flushes rp cfg pkt above = false)
    (free : cache.writesOf cfg key = []) (ret : cache.access rp cfg pkt tick = .ok found) :
    (found.cache.doWritebacks above found.writebacks).writesOf cfg key = [] := by
  rw [doWritebacks_writesOf, passOn_filter, List.append_eq_nil_iff]
  rw [writesOf_nil_iff] at free
  cases access_cases ret with
  | flushed place uncacheable present =>
    refine ⟨(writesOf_nil_iff _ key).mpr free, ?_⟩
    -- the packet of a flushed block is dropped when a cache above has the block
    have dropped : passOn above (evictionPacket cfg (cache.tags.blk place)) = none := by
      simpa [flushes, uncacheable, lineBlk, present] using calm
    refine List.filterMap_eq_nil_iff.mpr fun p mem => ?_
    obtain rfl := List.mem_singleton.mp (List.mem_of_mem_filter mem)
    exact dropped
  | bypassed => exact ⟨(writesOf_nil_iff _ key).mpr free, rfl⟩
  | maintenance => exact ⟨(writesOf_nil_iff _ key).mpr free, rfl⟩
  -- the packet that waits is of another line, whatever it is merged with
  | merged =>
    refine ⟨(writesOf_nil_iff _ key).mpr fun p mem => ?_, rfl⟩
    obtain ⟨q, waiting, rfl⟩ := List.mem_map.mp mem
    have unseen := free q waiting
    split
    · exact unseen
    · exact unseen
  | accessed start _ _ begins _ outcome =>
    have touched := lookedUp_blk rp cfg cache pkt tick
    have same : start.tags.blk = cache.tags.blk ∧ start.mshrs = cache.mshrs ∧
        ∀ p ∈ start.writeBuffer, seen cfg key p = false := by
      rw [begins]
      split
      · rw [dropWrite_tags]
        refine ⟨touched, (dropWrite_queue _ pkt).mshrs, fun p mem => free p ?_⟩
        unfold dropWrite at mem
        split at mem
        · exact List.mem_of_mem_erase mem
        · exact mem
      · exact ⟨touched, rfl, free⟩
    obtain ⟨blocks, mshrs, writes⟩ := same
    -- the line has an MSHR still, so its block is not the victim
    have waits' : start.findMshr key ≠ none := by
      simpa only [findMshr, mshrs] using waits
    have packets := outcome.fetched key (sound.congr blocks) waits'
    rw [packets]
    refine ⟨(writesOf_nil_iff _ key).mpr ?_, rfl⟩
    rw [outcome.writes]
    exact writes

theorem recvTimingReq_clear (own : pkt.line cfg.blkSize = key)
    (flush : cache.flushes rp cfg pkt above = false)
    (pass : cache.passesBy rp cfg pkt tick = false) (free : cache.writesOf cfg key = [])
    (ret : cache.recvTimingReq rp cfg above pkt tick = .ok (after, sent)) :
    after.writesOf cfg key = [] := by
  obtain ⟨found, accessed, ret⟩ := bind_ok_iff.mp ret
  have room := access_clear sound waits flush free accessed
  dsimp only at ret
  split at ret
  next =>
    cases ret
    exact room
  next missed =>
    have missed : found.satisfied = false := by simpa using missed
    rw [access_missed missed accessed] at ret
    obtain ⟨_, outcome⟩ := handleTimingReqMiss_cases ret
    cases outcome with
    | pushed direct =>
      have unseen : seen cfg key pkt = false := by
        rcases direct with uncacheable | clean | ⟨_, idle⟩
        · simp [seen, uncacheable]
        · -- a WriteClean that gets here was not absorbed
          have uncacheable : pkt.req.flags.uncacheable = true := by
            simpa [passesBy, clean, accessed, missed] using pass
          simp [seen, uncacheable]
        · have mshrs := (access_queue accessed).mshrs
          rw [own] at idle
          refine absurd ?_ waits
          simpa only [findMshr, doWritebacks, mshrs] using idle
      rw [writesOf_nil_iff] at room ⊢
      exact List.forall_mem_append.mpr ⟨room, List.forall_mem_singleton.mpr unseen⟩
    | opened =>
      rw [← room]
      cases found.place <;> rfl
    | _ => exact room

end

theorem replaySnoop_writes (above : Packet → Bool) (cache : Cache R) (pkt : Packet) (ref : BlkRef)
    (calm : pkt.isClean = true → (cache.getBlk ref).dirty = false) :
    (cache.replaySnoop rp cfg above pkt ref).writeBuffer = cache.writeBuffer := by
  unfold replaySnoop
  dsimp only
  split
  · rfl
  · split
    next clean =>
      simp only [calm clean, Bool.false_eq_true, if_false]
      split <;> simp
    next =>
      split
      · rfl
      · split <;> split <;> simp

theorem recvTimingSnoopReq_clear (own : pkt.line cfg.blkSize = key)
    (calm : cache.cleans rp cfg pkt = false) (free : cache.writesOf cfg key = [])
    (ret : cache.recvTimingSnoopReq rp cfg above pkt = .ok after) :
    after.writesOf cfg key = [] := by
  -- behind the MSHR nothing waits, so only the block is snooped
  have behind (start : Cache R) (asked : Packet) (tags : start.tags = cache.tags)
      (writes : start.writeBuffer = cache.writeBuffer) (line : asked.line cfg.blkSize = key)
      (same : asked.isClean = pkt.isClean) :
      (start.snoopBlock rp cfg above key asked).writesOf cfg key = [] := by
    have none : start.findWrite cfg key = none := by
      rw [findWrite_eq, writesOf, writes]
      exact List.head?_eq_none_iff.mpr free
    have quiet : start.snoopWrite cfg asked = start := by
      simp only [snoopWrite, line, none]
    unfold snoopBlock
    simp only [none, Option.isSome_none, Bool.and_false, Bool.false_eq_true, if_false, quiet]
    split
    next place found =>
      rw [writesOf, replaySnoop_writes above start asked (.tag place), writes]
      · exact free
      · intro clean
        rw [same] at clean
        rw [tags] at found
        have blk : cache.lineBlk rp (pkt.line cfg.blkSize) =
            some (cache.tags.blk place) := by
          rw [own, lineBlk, found]
          rfl
        rw [getBlk, tags]
        simpa [cleans, clean, blk] using calm
    next =>
      rw [writesOf, writes]
      exact free
  cases recvTimingSnoopReq_cases ret with
  | alone =>
    rw [own]
    exact behind cache pkt rfl rfl own rfl
  | skipped => exact free
  | kept => exact free
  | passed _ result _ handled =>
    have line := Mshr.handleSnoop_pkt handled cfg.blkSize
    have same : result.pkt.isClean = pkt.isClean := by
      cases Mshr.handleSnoop_cases handled <;> rfl
    rw [own]
    exact behind _ result.pkt rfl rfl (line.trans own) same

theorem serviceTargets_writes {resp : Packet} {ref : Option BlkRef} {targets : List Target}
    (cache : Cache R) (sent : List Packet) (asked : ∀ t ∈ targets, t.source ≠ .fromSnoop)
    (ret : cache.serviceTargets rp cfg above mshr resp ref targets = .ok (after, sent)) :
    after.writeBuffer = cache.writeBuffer := by
  induction targets generalizing cache sent with
  | nil =>
    cases ret
    rfl
  | cons t _ ih =>
    obtain ⟨⟨middle, _⟩, serviced, ret⟩ := bind_ok_iff.mp ret
    obtain ⟨⟨_, more⟩, looped, ret⟩ := bind_ok_iff.mp ret
    cases ret
    have later := ih middle more (fun u mem => asked u (List.mem_cons_of_mem t mem)) looped
    refine later.trans ?_
    cases serviceTarget_cases serviced with
    | unused => rfl
    | prefetched used => exact setBlk_writeBuffer cache used _
    | snooped _ snoop => exact absurd snoop (asked t List.mem_cons_self)
    | claimed used => exact setBlk_writeBuffer cache used _
    | answered _ _ _ _ _ _ request =>
      exact serviceRequest_writes request

theorem recvTimingResp_direct {id : Nat} {sent : List Packet}
    (found : cache.findId id = some entry) (direct : entry.mshr.Direct)
    (ret : cache.recvTimingResp rp cfg above id pkt tick = .ok (after, sent)) :
    after.writeBuffer = cache.writeBuffer := by
  obtain ⟨r⟩ := recvTimingResp_ok ret
  have answered : r.mshr = entry.mshr ∧ entry.mshr.inService = true := by
    have answered := r.answered
    rw [Cache.answered, found, Option.bind_some] at answered
    split at answered
    next asserted =>
      simp only [Bool.and_eq_true] at asserted
      exact ⟨(Option.some.inj answered).symm, asserted.1.1.1.1⟩
    next => cases answered
  have forward : r.mshr.isForward = true := by
    rw [answered.1]
    exact direct.forward answered.2
  -- the block it works on is none or sits in the tags
  obtain ⟨ref, filled, none⟩ : r.ref ≠ some .temp ∧ r.filled = cache ∧ r.writebacks = [] := by
    have fills := r.fills
    simp only [fillStage, isFill, forward, Bool.not_true, Bool.false_and, Bool.false_eq_true,
      if_false, Except.ok.injEq, Prod.mk.injEq] at fills
    obtain ⟨place, filled, none, _⟩ := fills
    refine ⟨?_, filled.symm, none.symm⟩
    rw [← place]
    simp
  have readied := promoteStage_writes r.promotes
  have served : r.serviced.writeBuffer = r.readied.writeBuffer := by
    obtain ⟨_, promotes⟩ := promoteStage_promotes r.promotes
    obtain ⟨⟨middle, up⟩, looped, settled⟩ := bind_ok_iff.mp r.services
    have asked : ∀ t ∈ r.ready.list, t.source ≠ .fromSnoop := by
      intro t mem
      refine (direct.targets t ?_).1
      rw [← answered.1, ← promotes.waiting]
      rw [(Mshr.extractServiceableTargets_some r.extracts).1] at mem
      exact List.mem_append_left _ ((Mshr.serviced_sublist _ _).subset mem)
    have writes := serviceTargets_writes r.readied up asked looped
    have last : r.serviced.writeBuffer = middle.writeBuffer := by
      dsimp only at settled
      split at settled
      · rw [← (Prod.mk.inj (Except.ok.inj settled)).1]
        exact settleBlock_writes r.promoted r.resp _ middle _
      · rw [← (Prod.mk.inj (Except.ok.inj settled)).1]
    exact last.trans writes
  have kept : evictTemp cfg r.ref (retireStage id r.left r.ref r.serviced) =
      (retireStage id r.left r.ref r.serviced, []) := by
    simp [evictTemp, ref]
  rw [r.retires, kept, none, List.append_nil, doWritebacks_nil, retireStage_writes, served, readied,
    filled]

section

variable (formed : cache.Formed rp cfg) (waits : old ∈ cache.mshrs)
  (fills : old.mshr.filling = true)
include formed waits fills

theorem Formed.finds : cache.findMshr old.mshr.key = some old := by
  obtain ⟨_, _, cacheable⟩ := old.mshr.filling_iff.mp fills
  apply findMshr_of_seen formed.single formed.ordered waits
  simp [Mshr.seen, cacheable]

/-- Any other MSHR of the line is an uncacheable one. -/
theorem Formed.bypass (mem : entry ∈ cache.mshrs) (line : entry.mshr.key = old.mshr.key)
    (other : entry.id ≠ old.id) : entry.mshr.uncacheable = true := by
  obtain ⟨_, _, cacheable⟩ := old.mshr.filling_iff.mp fills
  cases bypass : entry.mshr.uncacheable with
  | true => rfl
  | false =>
    have same := formed.single old.mshr.key entry mem old waits (by simp [Mshr.seen, bypass, line])
      (by simp [Mshr.seen, cacheable])
    exact absurd same other

end

/-- A packet that asks for the line is no clean operation. -/
theorem missPacket_fills (made : cache.missPacket rp cfg mshr = some (pkt, false)) :
    pkt.isClean = false := by
  obtain ⟨_, _, made⟩ := Option.map_eq_some_iff.mp made
  dsimp only at made
  split at made
  next created =>
    cases made
    unfold createMissPacket at created
    split at created
    · cases created
    · cases created
      dsimp only [Packet.isClean]
      split_ifs <;> rfl
  next => cases made

/-- An event about other lines adds no write of a line that has an MSHR. -/
theorem Aside.clear {before : Cache R} (aside : Aside rp cfg key before after)
    (waits : before.findMshr key ≠ none) (free : before.writesOf cfg key = []) :
    after.writesOf cfg key = [] := by
  cases aside with
  | kept _ writes => rw [writes, free]
  | evicted _ _ _ idle => exact absurd idle waits

theorem sendMSHRQueuePacket_clear {id : Nat} {pendingModifiedResp : Bool}
    (formed : cache.Formed rp cfg) (uncached : cache.Uncached) (waits : old ∈ cache.mshrs)
    (fills : old.mshr.filling = true) (free : cache.writesOf cfg old.mshr.key = [])
    (ret : cache.sendMSHRQueuePacket rp cfg above id pendingModifiedResp =
      .ok (after, sent)) : after.writesOf cfg old.mshr.key = [] := by
  have hit := formed.finds waits fills
  have known := ret
  obtain ⟨entry, _, _, _, found, idle, made, _, outcome⟩ := sendMSHRQueuePacket_cases ret
  obtain ⟨mem, named⟩ := findId_mem found
  cases outcome with
  | plain => exact free
  | cleaned _ asked =>
    -- the MSHR that is sent is of another line
    have apart : entry.mshr.key ≠ old.mshr.key := by
      intro same
      have other : entry.id ≠ old.id := by
        intro same
        rw [formed.ordered.unique entry old mem waits same,
          (old.mshr.filling_iff.mp fills).1] at idle
        cases idle
      have bypass := formed.bypass waits fills mem same other
      have direct := uncached entry mem bypass
      rw [(missPacket_direct direct made).2] at asked
      cases asked
    have aside := sendMSHRQueuePacket_aside old.mshr.key
       formed.sound (fun other waiting same => by
        rwa [formed.ordered.unique other entry waiting mem (same.trans named.symm)]) known
    exact aside.clear (by simp [hit]) free

/-! ### Events that overtake a fetch -/

/-- The line is being fetched. -/
def fetching (cache : Cache R) (key : LineKey) : Bool :=
  (cache.findMshr key).any fun entry => entry.mshr.filling

variable (rp cfg) in
/-- The MSHR asks for a line of which a write waits. -/
def overtaken (cache : Cache R) (id : Nat) : Bool :=
  (cache.findId id).any fun entry =>
    !entry.mshr.uncacheable &&
      ((cache.missPacket rp cfg entry.mshr).any fun sent => !sent.2) &&
      (cache.findWrite cfg entry.mshr.key).isSome

variable (rp cfg) in
/-- The event leaves a write of a line that is being fetched. -/
def overtakes (cache : Cache R) : CacheEvent → Bool
  | .recvTimingReq pkt tick above =>
    cache.fetching (pkt.line cfg.blkSize) &&
      (cache.flushes rp cfg pkt above || cache.passesBy rp cfg pkt tick)
  | .recvTimingSnoopReq pkt _ =>
    cache.fetching (pkt.line cfg.blkSize) && cache.cleans rp cfg pkt
  | .sendMSHRQueuePacket id _ _ => cache.overtaken rp cfg id
  | _ => false

variable (cfg) in
/-- A response is for the line of its MSHR. -/
def Addressed (cache : Cache R) : CacheEvent → Prop
  | .recvTimingResp id pkt _ _ =>
    ∀ entry, cache.findId id = some entry → entry.mshr.key = pkt.line cfg.blkSize
  | _ => True

variable (cfg) in
/-- No write waits of a line that is being fetched. -/
def Clear (cache : Cache R) : Prop :=
  ∀ entry ∈ cache.mshrs, entry.mshr.filling = true → cache.writesOf cfg entry.mshr.key = []

/-- While an MSHR stays in service, no write of its line comes in. -/
theorem handle_writes (formed : cache.Formed rp cfg) (uncached : cache.Uncached)
    (waits : old ∈ cache.mshrs) (fills : old.mshr.filling = true)
    (other : responds e ≠ some old.id) (addressed : cache.Addressed cfg e)
    (calm : cache.overtakes rp cfg e = false) (free : cache.writesOf cfg old.mshr.key = [])
    (handled : cache.handle rp cfg e = .ok (after, sent)) :
    after.writesOf cfg old.mshr.key = [] := by
  have hit := formed.finds waits fills
  have present : cache.findMshr old.mshr.key ≠ none := by simp [hit]
  have fetching : cache.fetching old.mshr.key = true := by simp [fetching, hit, fills]
  have same (writes : after.writeBuffer = cache.writeBuffer) :
      after.writesOf cfg old.mshr.key = [] := by
    rw [writesOf, writes]
    exact free
  cases e with
  | recvTimingReq pkt =>
    by_cases line : pkt.line cfg.blkSize = old.mshr.key
    · simp only [overtakes, line, fetching, Bool.true_and, Bool.or_eq_false_iff] at calm
      exact recvTimingReq_clear formed.sound present line calm.1 calm.2 free handled
    · have aside := recvTimingReq_aside formed.sound line handled
      exact aside.clear present free
  | recvTimingResp _ pkt =>
    obtain ⟨⟨_, _⟩, ret, result⟩ := map_ok_iff.mp handled
    cases result
    by_cases line : pkt.line cfg.blkSize = old.mshr.key
    · -- another MSHR of the line can only be an uncacheable one
      obtain ⟨r⟩ := recvTimingResp_ok ret
      obtain ⟨entry, found, _⟩ := Option.bind_eq_some_iff.mp r.answered
      obtain ⟨mem, named⟩ := findId_mem found
      have bypass := formed.bypass waits fills mem
        ((addressed entry found).trans line) fun twin => other (congrArg some (named ▸ twin))
      exact same (recvTimingResp_direct found (uncached entry mem bypass) ret)
    · have aside := recvTimingResp_aside formed.sound line ret
      exact aside.clear present free
  | sendMSHRQueuePacket =>
    exact sendMSHRQueuePacket_clear formed uncached waits fills free handled
  | sendWriteQueuePacket =>
    obtain ⟨_, _, ret⟩ := bind_ok_iff.mp handled
    cases ret
    rw [writesOf_nil_iff] at free ⊢
    exact fun p mem => free p (List.mem_of_mem_eraseIdx mem)
  | recvPfAck =>
    obtain ⟨_, ret, result⟩ := map_ok_iff.mp handled
    cases result
    exact same (recvPfAck_blocks ret).writeBuffer
  | issuePrefetch line =>
    obtain rfl : _ = after := congrArg Prod.fst (Except.ok.inj handled)
    exact same (issuePrefetch_blocks cache line).writeBuffer
  | squashPrefetch =>
    obtain ⟨_, ret, result⟩ := map_ok_iff.mp handled
    cases result
    exact same (squashPrefetch_blocks ret).writeBuffer
  | recvTimingSnoopReq pkt =>
    obtain ⟨_, ret, result⟩ := map_ok_iff.mp handled
    cases result
    by_cases line : pkt.line cfg.blkSize = old.mshr.key
    · simp only [overtakes, line, fetching, Bool.true_and] at calm
      exact recvTimingSnoopReq_clear line calm free ret
    · rw [(recvTimingSnoopReq_kept line ret).2]
      exact free
  | setDownstreamPending =>
    cases handled
    exact free

theorem handle_clear (formed : cache.Formed rp cfg) (uncached : cache.Uncached)
    (clear : cache.Clear cfg) (addressed : cache.Addressed cfg e)
    (calm : cache.overtakes rp cfg e = false)
    (handled : cache.handle rp cfg e = .ok (after, sent)) : after.Clear cfg := by
  intro now mem fills
  cases filling_origin handled now mem fills with
  | kept old waits _ was line other =>
    rw [line.key]
    exact handle_writes formed uncached waits was other addressed calm (clear old waits was) handled
  | sent pendingModifiedResp _ event =>
    subst event
    obtain ⟨entry, _, isForward, _, found, _, made, _, outcome⟩ := sendMSHRQueuePacket_cases handled
    have list : after.mshrs = (cache.setMshr now.id
        (Mshr.markInService { entry.mshr with isForward } pendingModifiedResp)).mshrs := by
      cases outcome <;> rfl
    rw [list] at mem
    -- the MSHR is the one found, marked
    let mark (mshr : Mshr) := Mshr.markInService { mshr with isForward } pendingModifiedResp
    have served : now.mshr = mark entry.mshr :=
      setMshr_all (P := fun e => e.id = now.id → e.mshr = mark entry.mshr) cache now.id
        (mark entry.mshr) (fun _ _ different same => absurd same different) (fun _ => rfl)
        now mem rfl
    rw [served, Mshr.filling_iff] at fills
    obtain ⟨_, rfl, cacheable⟩ : _ ∧ isForward = false ∧ entry.mshr.uncacheable = false := fills
    have free : cache.writesOf cfg entry.mshr.key = [] := by
      have none : cache.findWrite cfg entry.mshr.key = none := by
        simpa [overtakes, overtaken, found, cacheable, made] using calm
      rw [findWrite_eq] at none
      exact List.head?_eq_none_iff.mp none
    rw [served]
    cases outcome with
    | plain => exact free
    | cleaned _ asked =>
      rw [missPacket_fills made] at asked
      cases asked

end Cache

end RasCache.Mem
