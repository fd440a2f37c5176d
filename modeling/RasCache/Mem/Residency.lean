import RasCache.Mem.Queue

/-!
# The lines a cache holds over one step

A step can bring one line into the tag array, the line of the packet it handles,
and only when the array does not hold that line. Everything else it does to the
blocks keeps their lines or takes them away.
-/
namespace RasCache.Mem

open Outcomes

variable {R : Type} {before : Tags R}

namespace Tags

/-- Every valid block was there with its line. -/
def NoneNew (before after : Tags R) : Prop :=
  ∀ place, (after.blk place).valid = true →
    (before.blk place).valid = true ∧ (after.blk place).key = (before.blk place).key

/-- Every valid block was there with its line, but for the one at `installed`. -/
def OneNew (key : LineKey) (installed : Place) (before after : Tags R) : Prop :=
  ∀ place, (after.blk place).valid = true →
    (place = installed ∧ (after.blk place).key = key) ∨
      ((before.blk place).valid = true ∧ (after.blk place).key = (before.blk place).key)

theorem NoneNew.refl (tags : Tags R) : NoneNew tags tags := fun _ valid => ⟨valid, rfl⟩

variable {installed : Place} {second first third after : Tags R}

theorem NoneNew.trans (one : NoneNew first second) (two : NoneNew second third) :
    NoneNew first third := by
  intro place valid
  obtain ⟨valid, key⟩ := two place valid
  obtain ⟨valid', key'⟩ := one place valid
  exact ⟨valid', key.trans key'⟩

variable {key : LineKey}

theorem OneNew.trans (one : OneNew key installed first second) (two : NoneNew second third) :
    OneNew key installed first third := by
  intro place valid
  obtain ⟨valid, same⟩ := two place valid
  rcases one place valid with ⟨here, named⟩ | ⟨valid', same'⟩
  · exact .inl ⟨here, same.trans named⟩
  · exact .inr ⟨valid', same.trans same'⟩

theorem OneNew.absent {other : LineKey} (rp : ReplacementPolicy R)
    (one : OneNew other installed before after) (different : other ≠ key)
    (absent : before.findBlock rp key = none) : after.findBlock rp key = none := by
  rw [findBlock_none_iff] at absent ⊢
  intro way bound
  rw [← Bool.not_eq_true, CacheBlk.holds_iff]
  rintro ⟨valid, named⟩
  rcases one _ valid with ⟨_, line⟩ | ⟨valid', same⟩
  · exact different (line.symm.trans named)
  · have holds := CacheBlk.holds_iff.mpr ⟨valid', same.symm.trans named⟩
    rw [absent way bound] at holds
    cases holds

theorem NoneNew.absent (rp : ReplacementPolicy R) (kept : NoneNew before after)
    (absent : before.findBlock rp key = none) : after.findBlock rp key = none := by
  rw [findBlock_none_iff] at absent ⊢
  intro way bound
  rw [← Bool.not_eq_true, CacheBlk.holds_iff]
  rintro ⟨valid, named⟩
  obtain ⟨valid', same⟩ := kept _ valid
  have holds := CacheBlk.holds_iff.mpr ⟨valid', same.symm.trans named⟩
  rw [absent way bound] at holds
  cases holds

end Tags

variable {ref : Option BlkRef}

theorem TagsKept.noneNew {after : Tags R} (kept : TagsKept ref before after) :
    before.NoneNew after := kept.own

namespace Cache

variable (rp : ReplacementPolicy R) (cfg : CacheParams)

/-- What a step can do to the lines, for the line of its packet. -/
inductive TagsChange (before : Tags R) (line : Option LineKey) (after : Tags R) : Prop where
  | kept (none : before.NoneNew after)
  | installed (key : LineKey) (place : Place) (named : line = some key)
    (absent : before.findBlock rp key = none)
    (set : place.set = rp.setOf key.blkAddr) (way : place.way < rp.assoc)
    (one : Tags.OneNew key place before after)

variable {writebacks : List Packet} {line : Option LineKey}

theorem TagsChange.trans {middle after : Tags R} (change : TagsChange rp before line middle)
    (none : middle.NoneNew after) : TagsChange rp before line after := by
  cases change with
  | kept first => exact .kept (first.trans none)
  | installed key place named absent set way one =>
    exact .installed key place named absent set way (one.trans none)

variable {rp cfg}

/-- `allocateBlock` puts the line at the place of the victim, or changes no block. -/
theorem allocateBlock_tags {cache after : Cache R} {key : LineKey} {tick : Nat}
    {found : Option Place} (absent : cache.tags.findBlock rp key = none)
    (ret : cache.allocateBlock rp cfg key tick = .ok (found, after, writebacks)) :
    TagsChange rp cache.tags (some key) after.tags := by
  have inserted (tags : Tags R) (place : Place) (none : cache.tags.NoneNew tags) :
      Tags.OneNew key place cache.tags (tags.insertBlock rp key place tick) := by
    intro other valid
    rw [insertBlock_blk] at valid ⊢
    by_cases same : other = place
    · rw [if_pos same]
      exact .inl ⟨same, rfl⟩
    · rw [if_neg same] at valid ⊢
      exact .inr (none other valid)
  -- what the policy does to its own state is not seen here
  have chosen (tags : Tags R) (same : tags.blk = cache.tags.blk) : cache.tags.NoneNew tags := by
    intro _ valid
    rw [same] at valid ⊢
    exact ⟨valid, rfl⟩
  cases allocateBlock_cases ret with
  | refused tags same => exact .kept (chosen tags same)
  | evicted place tags same set way =>
    refine .installed key place rfl absent set way (inserted _ _ ((chosen tags same).trans ?_))
    exact (Frame.invalidateBlock rp { cache with tags } (.tag place)).tags.noneNew
  | unused place tags same set way =>
    exact .installed key place rfl absent set way (inserted _ _ (chosen tags same))

variable {cache after : Cache R} {pkt : Packet} {tick : Nat} {above : Packet → Bool} {sent : Sent}

theorem handleFill_tags {allocate : Bool} {filled : Filled R} (ret : cache.handleFill rp cfg pkt
      (cache.tags.findBlock rp (pkt.line cfg.blkSize)) allocate tick = .ok filled) :
    TagsChange rp cache.tags (some (pkt.line cfg.blkSize)) filled.cache.tags := by
  have outcome := handleFill_cases ret
  generalize block : cache.tags.findBlock rp (pkt.line cfg.blkSize) = found at outcome
  cases outcome with
  | present place =>
    have written : Frame (some (.tag place)) cache
        (cache.setBlk (.tag place) (fillBits pkt (cache.getBlk (.tag place)))) :=
      .setBlk cache (.tag place) _ fun valid => ⟨valid, rfl⟩
    exact .kept written.tags.noneNew
  | allocated place room writebacks _ took =>
    have written : Frame (some (.tag place)) room
        (room.setBlk (.tag place) (fillBits pkt (room.getBlk (.tag place)))) :=
      .setBlk room (.tag place) _ fun valid => ⟨valid, rfl⟩
    exact (allocateBlock_tags block took).trans rp written.tags.noneNew
  -- a fill of the temporary block changes the tags only by what it tried to allocate
  | temporary _ room writebacks _ _ refused =>
    rcases refused with ⟨_, rfl, _⟩ | ⟨_, took⟩
    · exact .kept (.refl _)
    · have tried := allocateBlock_tags block took
      exact tried

theorem fillStage_tags {filled : Cache R} {mshr : Mshr} {resp : Packet}
    (ret : cache.fillStage rp cfg mshr pkt tick = .ok (ref, filled, writebacks, resp)) :
    TagsChange rp cache.tags (some (pkt.line cfg.blkSize)) filled.tags := by
  cases fillStage_cases ret with
  | filled _ _ _ fill => exact handleFill_tags fill
  | passed => exact .kept (.refl _)

theorem recvTimingResp_tags {id : Nat} {sent : List Packet}
    (ret : cache.recvTimingResp rp cfg above id pkt tick = .ok (after, sent)) :
    TagsChange rp cache.tags (some (pkt.line cfg.blkSize)) after.tags := by
  obtain ⟨r⟩ := recvTimingResp_ok ret
  exact (fillStage_tags r.fills).trans rp r.tags.noneNew

/-! ### Requests -/

theorem blockForWrite_tags {out : Option Place} (ret : cache.blockForWrite rp cfg pkt
      (cache.tags.findBlock rp (pkt.line cfg.blkSize)) tick = .ok (out, after, writebacks)) :
    TagsChange rp cache.tags (some (pkt.line cfg.blkSize)) after.tags := by
  generalize absent : cache.tags.findBlock rp (pkt.line cfg.blkSize) = found at ret
  cases blockForWrite_cases ret with
  | present => exact .kept (.refl _)
  | denied => exact .kept (.refl _)
  | refused _ _ took => exact allocateBlock_tags absent took
  | allocated place room _ took =>
    have change := allocateBlock_tags absent took
    have written : Frame (some (.tag place)) room
        (room.setBlk (.tag place) { room.getBlk (.tag place) with readable := true }) :=
      .setBlk room (.tag place) _ fun valid => ⟨valid, rfl⟩
    exact change.trans rp written.tags.noneNew

variable {found : Access R} {other : Tags R}

theorem BlkAccess.tags (outcome : BlkAccess rp cfg cache pkt
      (cache.tags.findBlock rp (pkt.line cfg.blkSize)) tick found) :
    TagsChange rp cache.tags (some (pkt.line cfg.blkSize)) found.cache.tags := by
  cases outcome with
  | unplaced _ _ _ took =>
    exact blockForWrite_tags took
  | written used room _ _ took =>
    have change := blockForWrite_tags took
    refine change.trans rp (Frame.tags (.setBlk room (.tag used) _ ?_)).noneNew
    exact fun valid => ⟨valid, rfl⟩
  | satisfied _ after _ _ _ _ request =>
    exact .kept ((satisfyRequest_frame
      request).trans (maintainClusivity_frame rp cfg after _ _)).tags.noneNew
  | _ => exact .kept (.refl _)

theorem findBlock_congr {tags : Tags R} (key : LineKey) (same : other.blk = tags.blk) :
    other.findBlock rp key = tags.findBlock rp key := by
  simp only [Tags.findBlock, same]

theorem TagsChange.congr {after : Tags R} (change : TagsChange rp other line after)
    (same : other.blk = before.blk) : TagsChange rp before line after := by
  cases change with
  | kept none =>
    refine .kept ?_
    simpa only [Tags.NoneNew, same] using none
  | installed key place named absent set way one =>
    refine .installed key place named ?_ set way ?_
    · rw [← findBlock_congr key same]
      exact absent
    · simpa only [Tags.OneNew, same] using one

theorem access_tags (ret : cache.access rp cfg pkt tick = .ok found) :
    TagsChange rp cache.tags (some (pkt.line cfg.blkSize)) found.cache.tags := by
  have touched := lookedUp_blk rp cfg cache pkt tick
  cases access_cases ret with
  | flushed place => exact .kept (Frame.invalidateBlock rp cache (.tag place)).tags.noneNew
  | bypassed => exact .kept (.refl _)
  | maintenance | merged => exact TagsChange.congr (.kept (.refl _)) touched
  | accessed start _ _ begins _ outcome =>
    -- the access works on the same blocks, so the lookup stands
    have same : start.tags.blk = cache.tags.blk := by
      rw [begins]
      split
      · rw [dropWrite_tags]
        exact touched
      · exact touched
    rw [← findBlock_congr _ same] at outcome
    exact TagsChange.congr outcome.tags same

theorem handleTimingReqMiss_tags {place : Option Place}
    (ret : cache.handleTimingReqMiss cfg pkt place = .ok (after, sent)) :
    cache.tags.NoneNew after.tags := by
  obtain ⟨wa, outcome⟩ := handleTimingReqMiss_cases ret
  cases outcome with
  | opened =>
    cases place with
    | none => exact .refl _
    | some used =>
      refine (Frame.tags (.setBlk { cache with writeAllocator := wa } (.tag used) _ ?_)).noneNew
      exact fun valid => ⟨valid, rfl⟩
  | _ => exact .refl _

theorem recvTimingReq_tags (ret : cache.recvTimingReq rp cfg above pkt tick = .ok (after, sent)) :
    TagsChange rp cache.tags (some (pkt.line cfg.blkSize)) after.tags := by
  obtain ⟨_, accessed, ret⟩ := bind_ok_iff.mp ret
  have change := access_tags accessed
  dsimp only at ret
  split at ret
  · cases ret
    exact change
  · have missed := handleTimingReqMiss_tags ret
    exact change.trans rp missed

/-! ### Every step -/

variable (cfg) in
/-- The line an event can bring in. -/
def eventLine : CacheEvent → Option LineKey
  | .recvTimingReq pkt _ _ => some (pkt.line cfg.blkSize)
  | .recvTimingResp _ pkt _ _ => some (pkt.line cfg.blkSize)
  | _ => none

theorem snoopBlock_tags (cache : Cache R) (above : Packet → Bool) (key : LineKey)
    (pkt : Packet) : cache.tags.NoneNew (cache.snoopBlock rp cfg above key pkt).tags := by
  unfold snoopBlock
  dsimp only
  split
  · exact .refl _
  · rw [← snoopWrite_tags cfg cache pkt]
    split
    · exact (replaySnoop_frame rp cfg above _ pkt _).tags.noneNew
    · exact .refl _

theorem recvTimingSnoopReq_tags (ret : cache.recvTimingSnoopReq rp cfg above pkt = .ok after) :
    cache.tags.NoneNew after.tags := by
  cases recvTimingSnoopReq_cases ret with
  | alone => exact snoopBlock_tags cache above _ pkt
  | skipped => exact .refl _
  | kept => exact .refl _
  | passed entry result =>
    exact snoopBlock_tags
      { cache.setMshr entry.id result.mshr with order := cache.order + 1 } above _ result.pkt

theorem sendMSHRQueuePacket_tags {id : Nat} {pendingModifiedResp : Bool}
    (ret : cache.sendMSHRQueuePacket rp cfg above id pendingModifiedResp =
      .ok (after, sent)) : cache.tags.NoneNew after.tags := by
  obtain ⟨_, _, _, wa, _, _, _, _, outcome⟩ := sendMSHRQueuePacket_cases ret
  cases outcome with
  | plain => exact .refl _
  | cleaned place =>
    refine (Frame.tags (.setBlk { cache.setMshr id _ with writeAllocator := wa } (.tag place) _
      ?_)).noneNew
    exact fun valid => ⟨valid, rfl⟩

theorem handle_tags {e : CacheEvent} (ret : cache.handle rp cfg e = .ok (after, sent)) :
    TagsChange rp cache.tags (eventLine cfg e) after.tags := by
  cases e with
  | recvTimingReq =>
    exact recvTimingReq_tags ret
  | recvTimingResp =>
    obtain ⟨⟨_, _⟩, handled, same⟩ := map_ok_iff.mp ret
    cases same
    exact recvTimingResp_tags handled
  | sendMSHRQueuePacket =>
    exact .kept (sendMSHRQueuePacket_tags ret)
  -- the other events bring no line in
  | sendWriteQueuePacket =>
    obtain ⟨_, _, ret⟩ := bind_ok_iff.mp ret
    cases ret
    exact .kept (.refl _)
  | recvPfAck =>
    obtain ⟨_, handled, same⟩ := map_ok_iff.mp ret
    cases same
    rw [(recvPfAck_blocks handled).tags]
    exact .kept (.refl _)
  | issuePrefetch line =>
    obtain rfl : _ = after := congrArg Prod.fst (Except.ok.inj ret)
    rw [(issuePrefetch_blocks cache line).tags]
    exact .kept (.refl _)
  | squashPrefetch =>
    obtain ⟨_, handled, same⟩ := map_ok_iff.mp ret
    cases same
    rw [(squashPrefetch_blocks handled).tags]
    exact .kept (.refl _)
  | recvTimingSnoopReq =>
    obtain ⟨_, handled, same⟩ := map_ok_iff.mp ret
    cases same
    exact .kept (recvTimingSnoopReq_tags handled)
  | setDownstreamPending =>
    cases ret
    exact .kept (.refl _)

end Cache

end RasCache.Mem
