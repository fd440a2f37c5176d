import RasCache.Mem.Line

/-!
# Handing a dirty line up

A cache that answers a read of the cache above may pass the line on in Modified
state: the answer says that a cache responds and names no sharers, and the
receiver marks its block dirty. Whoever passes the line on in this way should no
longer consider it dirty. This module says when `satisfyRequest` does so, and
follows one line along a path of caches through reads and writebacks.
-/
namespace RasCache.Mem

open Outcomes

variable {R : Type}

/-- The receiver of the packet marks its block dirty. -/
def Packet.passesModified (pkt : Packet) : Bool := pkt.cacheResponding && !pkt.hasSharers

theorem fillBits_dirty (pkt : Packet) (blk : CacheBlk) :
    (Cache.fillBits pkt blk).dirty = (blk.dirty || pkt.passesModified) := by
  simp [Cache.fillBits, Packet.passesModified, Bool.and_comm]

@[simp] theorem fillBits_holds (pkt : Packet) (blk : CacheBlk) (key : LineKey) :
    (Cache.fillBits pkt blk).holds key = blk.holds key := rfl

@[simp] theorem writeBits_holds (pkt : Packet) (blk : CacheBlk) (key : LineKey) :
    (Cache.writeBits pkt blk).holds key = blk.holds key := rfl

@[simp] theorem CacheBlk.insert_holds (key : LineKey) : (CacheBlk.insert key).holds key = true := by
  simp [CacheBlk.holds, CacheBlk.insert]

@[simp] theorem CacheBlk.insert_dirty (key : LineKey) : (CacheBlk.insert key).dirty = false := rfl

variable {allocate : Bool}

namespace Cache

variable (rp : ReplacementPolicy R) (cfg : CacheParams)

/-! ### One answer -/

/-- The branch of `satisfyRequest` that passes the line on as Modified and clears
the own dirty bit only above level one. -/
def keepsDirty (pkt : Packet) (blk : CacheBlk) : Bool :=
  !pkt.needsWritable && blk.writable && !pkt.hasSharers && decide (pkt.cmd ≠ .readCleanReq) &&
    blk.dirty && decide (cfg.cacheLevel ≤ 1)

/-- The block once a read of a cache above is satisfied, and the flags
CACHE_RESPONDING and HAS_SHARERS of the answer. -/
inductive Granted (pkt : Packet) (blk : CacheBlk) : CacheBlk → Bool → Bool → Prop where
  | handed (dirty : blk.dirty = true) (clears : pkt.needsWritable = true ∨ 1 < cfg.cacheLevel) :
    Granted pkt blk { blk with dirty := false } true false
  | copied (keeps : keepsDirty cfg pkt blk = true) : Granted pkt blk blk true false
  | clean (clean : blk.dirty = false) : Granted pkt blk blk pkt.cacheResponding pkt.hasSharers
  | shared (claimed : keepsDirty cfg pkt blk = false) :
    Granted pkt blk blk pkt.cacheResponding true

theorem setBlk_getBlk (cache : Cache R) (ref : BlkRef) :
    cache.setBlk ref (cache.getBlk ref) = cache := by
  cases ref with
  | temp => rfl
  | tag => simp only [setBlk, getBlk, Tags.setBlk, Function.update_eq_self]

variable {cache room : Cache R} {pkt : Packet} {before after : CacheBlk} {responding sharers : Bool}
  {tick : Nat} {found : Access R} {writebacks : List Packet}
  {filled : Filled R} {place : Place} {out : Packet} {ref : BlkRef}

theorem grantRead_granted {after : Cache R}
    (ret : cache.grantRead cfg pkt ref false false = .ok (after, out)) :
    (∃ blk, after = cache.setBlk ref blk ∧
        Granted cfg pkt (cache.getBlk ref) blk out.cacheResponding out.hasSharers) ∧
      out.req = pkt.req ∧ out.addr = pkt.addr ∧ out.cmd = pkt.cmd := by
  have unchanged := (setBlk_getBlk cache ref).symm
  unfold grantRead at ret
  dsimp only at ret
  split at ret
  -- a writable copy, then a readable one
  next asks =>
    split at ret
    next => cases ret
    next alone =>
      have alone : pkt.hasSharers = false := by simpa using alone
      split at ret
      next dirty =>
        cases ret
        refine ⟨⟨_, rfl, ?_⟩, rfl, rfl, rfl⟩
        dsimp only
        rw [alone]
        exact .handed dirty (.inl asks)
      next clean =>
        cases ret
        exact ⟨⟨_, unchanged, .clean (by simpa using clean)⟩, rfl, rfl, rfl⟩
  next asks =>
    have asks : pkt.needsWritable = false := by simpa using asks
    split at ret
    next gives =>
      simp only [Bool.and_eq_true, Bool.not_false, Bool.not_eq_true', and_true,
        decide_eq_true_eq] at gives
      obtain ⟨⟨writable, alone⟩, other⟩ := gives
      split at ret
      next dirty =>
        simp only [Bool.false_eq_true, if_false] at ret
        cases ret
        dsimp only
        rw [alone]
        -- the first level keeps its dirty block, the others pass it on
        by_cases level : 1 < cfg.cacheLevel
        · rw [if_pos level]
          exact ⟨⟨_, rfl, .handed dirty (.inr level)⟩, rfl, rfl, rfl⟩
        · rw [if_neg level]
          refine ⟨⟨_, unchanged, .copied ?_⟩, rfl, rfl, rfl⟩
          simp [keepsDirty, asks, writable, alone, other, dirty, Nat.le_of_not_lt level]
      next clean =>
        cases ret
        exact ⟨⟨_, unchanged, .clean (by simpa using clean)⟩, rfl, rfl, rfl⟩
    next refused =>
      cases ret
      refine ⟨⟨_, unchanged, .shared ?_⟩, rfl, rfl, rfl⟩
      simp only [Bool.not_false, Bool.and_true, Bool.not_eq_true] at refused
      simp only [keepsDirty, asks, refused, Bool.not_false, Bool.true_and, Bool.false_and]

theorem Granted.of_data {data : Option UInt8}
    (granted : Granted cfg { pkt with data } before after responding sharers) :
    Granted cfg pkt before after responding sharers := by
  cases granted with
  | handed dirty clears => exact .handed dirty clears
  | copied keeps => exact .copied keeps
  | clean clean => exact .clean clean
  | shared claimed => exact .shared claimed

/-- What a read of a cache above leaves when it is satisfied on a hit. -/
theorem satisfyRequest_granted {after : Cache R} (read : pkt.isRead = true)
    (above : pkt.fromCache = true)
    (ret : cache.satisfyRequest rp cfg pkt ref false false = .ok (after, out)) :
    (∃ blk, after = cache.setBlk ref blk ∧
        Granted cfg pkt (cache.getBlk ref) blk out.cacheResponding out.hasSharers) ∧
      out.req = pkt.req ∧ out.addr = pkt.addr ∧ out.cmd = pkt.cmd := by
  -- a read of a cache writes nothing
  have plain : pkt.cmd ≠ .swapReq ∧ pkt.isWrite = false := by
    revert read above
    unfold Packet.isRead Packet.fromCache Packet.isWrite
    cases pkt.cmd <;> decide
  unfold satisfyRequest at ret
  split at ret
  next => cases ret
  next =>
    obtain ⟨⟨_, _⟩, base, ret⟩ := bind_ok_iff.mp ret
    unfold satisfyBase at base
    dsimp only at base ret
    rw [if_neg plain.1, plain.2, if_neg (by decide), if_pos read] at base
    cases base
    have still : ({ pkt with data := some (cache.getBlk ref).data } : Packet).isRead = true := read
    have still' : ({ pkt with data := some (cache.getBlk ref).data } : Packet).fromCache = true :=
      above
    rw [still, still', Bool.and_self, if_pos rfl] at ret
    split at ret
    next => cases ret
    next =>
      obtain ⟨⟨blk, set, granted⟩, same⟩ := grantRead_granted cfg ret
      exact ⟨⟨blk, set, granted.of_data⟩, same⟩

section Dirty

variable (granted : Granted cfg pkt before after responding sharers)
include granted

/-- An answer in Modified state leaves the own block dirty exactly in the branch
that does not clear it. -/
theorem Granted.clears_iff : (responding = true → sharers = false → after.dirty = false) ↔
      keepsDirty cfg pkt before = false := by
  cases granted with
  | handed _ clears =>
    have other : keepsDirty cfg pkt before = false := by
      rcases clears with asks | level
      · simp [keepsDirty, asks]
      · simp [keepsDirty, Nat.not_le.mpr level]
    simp [other]
  | copied keeps =>
    have dirty : before.dirty = true := by
      simp only [keepsDirty, Bool.and_eq_true] at keeps
      exact keeps.1.2
    simp [keeps, dirty]
  | clean clean => simp [keepsDirty, clean]
  | shared claimed => simp [claimed]

/-- Only the dirty bit of the block that answers can move up. -/
theorem Granted.dirty (unanswered : pkt.cacheResponding = false) :
    (responding = true → sharers = false → before.dirty = true) ∧
      (after.dirty = true → before.dirty = true) := by
  cases granted with
  | handed dirty => simp [dirty]
  | copied keeps =>
    simp only [keepsDirty, Bool.and_eq_true] at keeps
    simp [keeps.1.2]
  | clean | shared => simp [unanswered]

/-- The dirty bits of the block that answers and of the level that is filled: the
dirty bit moves up, unless the block keeps it. -/
theorem Granted.dirty_levels (unanswered : pkt.cacheResponding = false) (upper : Bool) :
    (keepsDirty cfg pkt before = false →
      (if after.dirty then 1 else 0) + (if upper || (responding && !sharers) then 1 else 0) ≤
        (if before.dirty then 1 else 0) + (if upper then 1 else 0)) ∧
    (keepsDirty cfg pkt before = true → 2 ≤ (if after.dirty then 1 else 0) +
        (if upper || (responding && !sharers) then 1 else 0)) := by
  have clears := granted.clears_iff
  obtain ⟨moves, stays⟩ := granted.dirty cfg unanswered
  constructor
  · intro cleared
    have relinquishes := clears.mpr cleared
    -- either the response carries the dirty data up, or the upper level stays as it is
    cases passes : (responding && !sharers) with
    | true =>
      have flags : responding = true ∧ sharers = false := by simpa using passes
      rw [relinquishes flags.1 flags.2, moves flags.1 flags.2, Bool.or_true]
      simp only [Bool.false_eq_true, if_false, if_true]
      omega
    | false =>
      rw [Bool.or_false]
      by_cases keeps : after.dirty = true
      · exact Nat.le_of_eq (by rw [keeps, stays keeps])
      · rw [if_neg keeps]
        omega
  · intro keeps
    -- the upper level gets the data as its own, and the lower one keeps it dirty
    have breaks : ¬ (responding = true → sharers = false → after.dirty = false) := by
      intro all
      rw [clears.mp all] at keeps
      cases keeps
    obtain ⟨claimed, breaks⟩ := Classical.not_imp.mp breaks
    obtain ⟨alone, dirty⟩ := Classical.not_imp.mp breaks
    rw [Bool.not_eq_false] at dirty
    simp only [dirty, claimed, alone, Bool.not_false, Bool.and_self, Bool.or_true, if_true]
    omega

end Dirty

/-! ### The cache that answers, and the cache that is filled -/

/-- The cache considers the line dirty. -/
def considersDirty (cache : Cache R) (key : LineKey) : Bool :=
  (cache.lineBlk rp key).any CacheBlk.dirty ||
    cache.tempBlock.holds key && cache.tempBlock.dirty

variable {rp cfg}

variable {key : LineKey}

theorem lineBlk_none (cache : Cache R)
    (nowhere : ∀ place, (cache.tags.blk place).holds key = false) :
    cache.lineBlk rp key = none := by
  rw [lineBlk, (Tags.findBlock_none_iff rp cache.tags key).mpr fun way _ => nowhere _]
  rfl

section

variable (sound : cache.tags.Sound rp cfg.blkSize)
include sound

/-- Where only one block can hold the line, the dirty bit of that block counts. -/
theorem lineBlk_dirty (others : ∀ other, other ≠ place → (cache.tags.blk other).holds key = false)
    (named : (cache.tags.blk place).holds key = true ∨ (cache.tags.blk place).valid = false ∧
      (cache.tags.blk place).dirty = false) :
    (cache.lineBlk rp key).any CacheBlk.dirty = (cache.tags.blk place).dirty := by
  rcases named with held | ⟨invalid, clean⟩
  · rw [lineBlk_of_holds key place sound held]
    rfl
  · rw [lineBlk_none cache, clean]
    · rfl
    · intro other
      by_cases same : other = place
      · rw [same]
        simp [CacheBlk.holds, invalid]
      · exact others other same

theorem access_sound (ret : cache.access rp cfg pkt tick = .ok found) :
    found.cache.tags.Sound rp cfg.blkSize := by
  apply sound.change (access_tags ret)
  intro _ named
  cases named
  exact Packet.line_aligned _ _

theorem handleFill_sound (line : pkt.line cfg.blkSize = key)
    (ret : cache.handleFill rp cfg pkt (cache.tags.findBlock rp key) allocate tick =
      .ok filled) : filled.cache.tags.Sound rp cfg.blkSize := by
  rw [← line] at ret
  apply sound.change (handleFill_tags ret)
  intro _ named
  cases named
  exact Packet.line_aligned _ _

end

/-- A read of a cache above that is answered is answered from a block. -/
theorem access_answers (read : pkt.isRead = true) (above : pkt.fromCache = true)
    (ret : cache.access rp cfg pkt tick = .ok found) (sat : found.satisfied = true) :
    ∃ (place : Place) (start after : Cache R) (out : Packet),
      cache.tags.findBlock rp (pkt.line cfg.blkSize) = some place ∧
      start.tags.blk = cache.tags.blk ∧ start.tempBlock = cache.tempBlock ∧
      start.satisfyRequest rp cfg pkt (.tag place) false false = .ok (after, out) ∧
      found.pkt = out ∧
      found.cache = after.maintainClusivity rp cfg out.fromCache (.tag place) := by
  -- of what `access` does, a read from above meets only the hit and the miss
  have plain : pkt.isCleanEviction = false ∧ pkt.isEviction = false ∧ writesData pkt = false ∧
      pkt.isWrite = false ∧ pkt.cmd ≠ .cleanEvict ∧ pkt.cmd ≠ .writebackClean := by
    revert read above
    unfold writesData Packet.isRead Packet.fromCache Packet.isWrite Packet.isWriteback
      Packet.isCleanEviction Packet.isEviction Packet.hasData
    cases pkt.cmd <;> decide
  obtain ⟨unclean, stays, reads, unwritten, other, other'⟩ := plain
  cases access_cases ret with
  | flushed | bypassed | maintenance => cases sat
  | merged _ _ clean => rw [unclean] at clean; cases clean
  | accessed start _ _ begins _ outcome =>
    rw [stays, if_neg (by decide)] at begins
    cases outcome with
    | swallowed clean => exact absurd clean other'
    | writtenThrough | unplaced => cases sat
    | written _ _ _ writes => rw [reads] at writes; cases writes
    | cleanEvict cmd => exact absurd cmd other
    | satisfied used after out here _ _ request =>
      refine ⟨used, start, after, out, here, ?_, ?_, request, rfl, rfl⟩
      · rw [begins, lookedUp_blk]
      · rw [begins]
        rfl
    | missed => simp [unwritten] at sat

theorem Granted.held (granted : Granted cfg pkt before after responding sharers) :
    after.holds key = before.holds key := by
  cases granted <;> rfl

/-- The cache that answers a read of the cache above. -/
theorem access_granted (sound : cache.tags.Sound rp cfg.blkSize)
    (line : pkt.line cfg.blkSize = key) (read : pkt.isRead = true)
    (above : pkt.fromCache = true) (ret : cache.access rp cfg pkt tick = .ok found)
    (sat : found.satisfied = true) : ∃ place blk, cache.tags.findBlock rp key = some place ∧
      Granted cfg pkt (cache.tags.blk place) blk found.pkt.cacheResponding found.pkt.hasSharers ∧
      (found.cache.lineBlk rp key).any CacheBlk.dirty = blk.dirty ∧
      found.cache.tempBlock = cache.tempBlock ∧ found.pkt.line cfg.blkSize = key := by
  have after_sound := access_sound sound ret
  obtain ⟨place, start, after, out, present, same, temp, request, answer, kept⟩ :=
    access_answers read above ret sat
  rw [line] at present
  obtain ⟨⟨blk, set, granted⟩, req, addr, _⟩ := satisfyRequest_granted rp cfg read above request
  have here : start.getBlk (.tag place) = cache.tags.blk place := congrFun same place
  rw [here] at granted
  have held := Tags.findBlock_holds present
  have blk_held : blk.holds key = true := (granted.held).trans held
  refine ⟨place, blk, present, by rwa [answer], ?_, ?_, ?_⟩
  · -- the block is still there, or it was clean and a mostly exclusive cache drops it
    have others : ∀ other, other ≠ place → (found.cache.tags.blk other).holds key = false := by
      intro other apart
      have outside := (maintainClusivity_frame rp cfg after out.fromCache
        (.tag place)).tags.others other (by simp [apart.symm])
      rw [kept, outside, set]
      simp only [setBlk]
      rw [Tags.setBlk_other _ _ apart, same, ← Bool.not_eq_true]
      exact fun twice => apart (sound.same_place twice held)
    have there : after.tags.blk place = blk := by
      rw [set]
      exact Tags.setBlk_same _ _ _
    rw [kept] at after_sound others ⊢
    unfold maintainClusivity at after_sound others ⊢
    dsimp only at after_sound others ⊢
    split at after_sound
    next drops =>
      rw [if_pos drops] at others ⊢
      have clean : blk.dirty = false := by
        simp only [getBlk, there, Bool.and_eq_true, Bool.not_eq_true'] at drops
        exact drops.1.2
      have gone : (after.invalidateBlock rp (.tag place)).tags.blk place = {} := by
        simp [invalidateBlock, Tags.invalidate, CacheBlk.invalidate]
      rw [lineBlk_dirty after_sound others (.inr (by rw [gone]; decide)), gone, clean]
    next stays =>
      rw [if_neg stays] at others ⊢
      rw [lineBlk_dirty after_sound others (.inl (by rwa [there])), there]
  · rw [kept, ← temp]
    unfold maintainClusivity
    dsimp only
    split <;> rw [set] <;> rfl
  · rw [answer, ← line]
    simp [Packet.line, Packet.isSecure, Packet.domainID, req, addr]

theorem allocateBlock_only (sound : cache.tags.Sound rp cfg.blkSize)
    (absent : cache.tags.findBlock rp key = none)
    (took : cache.allocateBlock rp cfg key tick = .ok (some place, room, writebacks)) :
    (∀ other, other ≠ place → (room.tags.blk other).holds key = false) ∧
      room.tags.blk place = .insert key ∧ room.tempBlock = cache.tempBlock := by
  refine ⟨fun other apart => ?_, allocateBlock_some
    took, ?_⟩
  · have nowhere := sound.unheld key absent other
    cases allocateBlock_cases took with
    | evicted _ tags same =>
      rw [insertBlock_blk, if_neg apart, invalidate_blk tags apart, same]
      exact nowhere
    | unused _ _ same =>
      rw [insertBlock_blk, if_neg apart, same]
      exact nowhere
  · cases allocateBlock_cases took <;> rfl

theorem allocateBlock_refused
    (refused : cache.allocateBlock rp cfg key tick = .ok (none, room, writebacks)) :
    room.tags.blk = cache.tags.blk ∧ room.tempBlock = cache.tempBlock := by
  cases allocateBlock_cases refused with
  | refused _ same => exact ⟨same, rfl⟩

section

variable (sound : cache.tags.Sound rp cfg.blkSize) (line : pkt.line cfg.blkSize = key)
include sound line

/-- The cache that gets the answer considers the line dirty if it did so before
or the answer passes it on as Modified. -/
theorem handleFill_considersDirty (idle : cache.tempBlock.valid = false)
    (ret : cache.handleFill rp cfg pkt (cache.tags.findBlock rp key) allocate tick =
      .ok filled) : filled.cache.considersDirty rp key =
        (cache.considersDirty rp key || pkt.passesModified) ∧
      (filled.cache.tempBlock.valid = true → filled.cache.lineBlk rp key = none) := by
  have after_sound := handleFill_sound sound line ret
  have unheld : cache.tempBlock.holds key = false := by simp [CacheBlk.holds, idle]
  have outcome := handleFill_cases ret
  generalize block : cache.tags.findBlock rp key = found at outcome
  cases outcome with
  | present place =>
    have held := Tags.findBlock_holds block
    -- the block is there: its dirty bit and that of the packet are joined
    have before : (cache.lineBlk rp key).any CacheBlk.dirty = (cache.tags.blk place).dirty := by
      rw [lineBlk_of_holds key place sound held]
      rfl
    have after := lineBlk_of_holds key place after_sound (by simpa [setBlk, getBlk] using held)
    refine ⟨?_, fun busy => ?_⟩
    · simp only [considersDirty, after, before]
      simp [setBlk, fillBits_dirty, unheld, getBlk]
    · rw [show cache.tempBlock.valid = true from busy] at idle
      cases idle
  | allocated place room _ _ took =>
    rw [line] at took
    obtain ⟨_, new, temp⟩ := allocateBlock_only sound block took
    -- the block is new and has what the packet brings
    have before : cache.lineBlk rp key = none := by simp [lineBlk, block]
    have after := lineBlk_of_holds key place after_sound (by simp [setBlk, getBlk, new])
    refine ⟨?_, fun busy => ?_⟩
    · simp only [considersDirty, after, before]
      simp [setBlk, fillBits_dirty, unheld, temp, getBlk, new]
    · rw [← temp, show room.tempBlock.valid = true from busy] at idle
      cases idle
  | temporary _ room _ _ _ refused =>
    -- the tags have no room, so the line is in the temporary block only
    have same : room.tags.blk = cache.tags.blk := by
      rcases refused with ⟨_, rfl, _⟩ | ⟨_, refused⟩
      · rfl
      · exact (allocateBlock_refused refused).1
    have before : cache.lineBlk rp key = none := by simp [lineBlk, block]
    have after : room.lineBlk rp key = none := by
      apply lineBlk_none
      intro place
      rw [same]
      exact sound.unheld key block place
    refine ⟨?_, fun _ => after⟩
    change ((room.lineBlk rp key).any CacheBlk.dirty || _) = _
    rw [after, considersDirty, before, line]
    simp [fillBits_dirty, unheld]

/-! ### The cache that gets a writeback -/

/-- The block a writeback goes to holds the line, and nothing else of the line
changes. -/
theorem blockForWrite_used {used : Place}
    (took : cache.blockForWrite rp cfg pkt (cache.tags.findBlock rp key) tick =
      .ok (some used, room, writebacks)) :
    (room.tags.blk used).holds key = true ∧ room.tempBlock = cache.tempBlock ∧
      ((room.tags.blk used).dirty = true → (cache.lineBlk rp key).any CacheBlk.dirty = true) := by
  generalize block : cache.tags.findBlock rp key = place at took
  cases blockForWrite_cases
    took with
  | present =>
    -- the block that is there is written in place
    refine ⟨Tags.findBlock_holds block, rfl, fun dirty => ?_⟩
    simpa [lineBlk, block] using dirty
  | allocated _ made _ allocated =>
    rw [line] at allocated
    obtain ⟨_, new, temp⟩ := allocateBlock_only sound block allocated
    refine ⟨?_, temp, ?_⟩
    · simp [setBlk, getBlk, new, CacheBlk.holds, CacheBlk.insert]
    · simp [setBlk, getBlk, new]

end

theorem blockForWrite_unplaced {place : Option Place}
    (took : cache.blockForWrite rp cfg pkt place tick = .ok (none, room, writebacks)) :
    room.tags.blk = cache.tags.blk ∧ room.tempBlock = cache.tempBlock := by
  cases blockForWrite_cases took with
  | denied => exact ⟨rfl, rfl⟩
  | refused _ _ allocated => exact allocateBlock_refused allocated

theorem considersDirty_congr {before after : Cache R} (same : after.tags.blk = before.tags.blk)
    (temp : after.tempBlock = before.tempBlock) :
    after.considersDirty rp key = before.considersDirty rp key := by
  simp only [considersDirty, lineBlk, findBlock_congr key same, same, temp]

/-- A cache that gets the eviction of a cache above considers the line dirty only
if it did so before or took the data of a dirty block. -/
theorem access_considersDirty (sound : cache.tags.Sound rp cfg.blkSize)
    (line : pkt.line cfg.blkSize = key) (leaves : pkt.isEviction = true)
    (cacheable : pkt.req.flags.uncacheable = false)
    (ret : cache.access rp cfg pkt tick = .ok found) : found.cache.tempBlock = cache.tempBlock ∧
      (found.cache.considersDirty rp key = true → cache.considersDirty rp key = true ∨
        found.satisfied = true ∧ pkt.cmd = .writebackDirty) := by
  have after_sound := access_sound sound ret
  -- a cache whose blocks stay as they are
  have unchanged (after : Cache R) (same : after.tags.blk = cache.tags.blk)
      (temp : after.tempBlock = cache.tempBlock) : after.tempBlock = cache.tempBlock ∧
        (after.considersDirty rp key = true → cache.considersDirty rp key = true ∨
          found.satisfied = true ∧ pkt.cmd = .writebackDirty) := by
    rw [considersDirty_congr same temp]
    exact ⟨temp, .inl⟩
  have touched := lookedUp_blk rp cfg cache pkt tick
  cases access_cases ret with
  | flushed _ uncacheable | bypassed uncacheable =>
    rw [cacheable] at uncacheable
    cases uncacheable
  | maintenance | merged => exact unchanged _ touched rfl
  | accessed start _ _ begins _ outcome =>
    rw [leaves, if_pos rfl] at begins
    have same : start.tags.blk = cache.tags.blk := by
      rw [begins, dropWrite_tags]
      exact touched
    have temp : start.tempBlock = cache.tempBlock := by
      rw [begins]
      unfold dropWrite
      split <;> rfl
    rw [line, ← findBlock_congr key same] at outcome
    have start_sound : start.tags.Sound rp cfg.blkSize := by
      have nothing : TagsChange rp cache.tags none start.tags :=
        TagsChange.congr (.kept (.refl _)) same
      exact sound.change nothing fun _ named => nomatch named
    cases outcome with
    | swallowed | writtenThrough | cleanEvict | missed => exact unchanged _ same temp
    | unplaced _ _ _ took =>
      obtain ⟨kept, kept'⟩ := blockForWrite_unplaced took
      exact unchanged _ (kept.trans same) (kept'.trans temp)
    | written used _ _ writes took =>
      obtain ⟨held, kept, dirty⟩ := blockForWrite_used start_sound line took
      refine ⟨kept.trans temp, fun now => ?_⟩
      have after := lineBlk_of_holds key used after_sound (by simpa [setBlk, getBlk] using held)
      rw [← considersDirty_congr same temp]
      simp only [considersDirty, after, Bool.or_eq_true] at now ⊢
      rcases now with now | now
      · simp only [setBlk, Tags.setBlk_same, Option.any_some, writeBits, getBlk, Bool.or_eq_true,
          Bool.and_eq_true, decide_eq_true_eq] at now
        rcases now with old | ⟨other, straight⟩
        · exact .inl (.inl (dirty old))
        · refine .inr ⟨straight, ?_⟩
          revert leaves writes other
          unfold writesData Packet.isEviction Packet.isWriteback Packet.isEviction Packet.hasData
          cases pkt.cmd <;> decide
      · rw [← kept]
        exact .inl (.inr now)
    | satisfied _ _ _ _ reads _ request =>
      -- the one eviction without data is never satisfied from a block
      have evict : pkt.cmd = .cleanEvict := by
        revert leaves reads
        unfold writesData Packet.isEviction Packet.isWriteback Packet.isEviction Packet.hasData
        cases pkt.cmd <;> decide
      unfold satisfyRequest at request
      split at request
      next => cases request
      next =>
        obtain ⟨_, base, _⟩ := bind_ok_iff.mp request
        simp [satisfyBase, evict, Packet.isWrite, Packet.isRead, Packet.isUpgrade, Packet.isClean,
          Packet.isInvalidate, MemCmd.has, MemCmd.attributes] at base

end Cache

/-! ### A path of caches -/

/-- One cache of the path. -/
structure Level (R : Type) where
  policy : ReplacementPolicy R
  params : CacheParams
  cache : Cache R

variable {level : Level R}

namespace Level

/-- The level considers the line dirty. -/
def dirty (key : LineKey) (level : Level R) : Bool := level.cache.considersDirty level.policy key

/-- The temporary block is in use: the level is in the middle of a response. -/
def busy (level : Level R) : Bool := level.cache.tempBlock.valid

theorem dirty_of_idle (key : LineKey) (level : Level R) (idle : level.busy = false) :
    level.dirty key = (level.cache.lineBlk level.policy key).any CacheBlk.dirty := by
  have unheld : level.cache.tempBlock.holds key = false := by
    rw [CacheBlk.holds, show level.cache.tempBlock.valid = false from idle, Bool.false_and]
  rw [dirty, Cache.considersDirty, unheld, Bool.false_and, Bool.or_false]

structure Formed (blkSize : Nat) (key : LineKey) (level : Level R) : Prop where
  size : level.params.blkSize = blkSize
  sound : level.cache.tags.Sound level.policy blkSize
  apart : level.busy = true → level.cache.lineBlk level.policy key = none

theorem Formed.own_sound {blkSize : Nat} {key : LineKey} (formed : level.Formed blkSize key) :
    level.cache.tags.Sound level.policy level.params.blkSize := by
  rw [formed.size]
  exact formed.sound

end Level

/-- The caches from the core towards memory. -/
abbrev Path (R : Type) := List (Level R)

namespace Path

/-- Apply an operation to the caches from level `i` on. -/
def descend (operation : Path R → Option (Path R)) : Nat → Path R → Option (Path R)
  | 0, path => operation path
  | i + 1, level :: below => (descend operation i below).map (level :: ·)
  | _ + 1, [] => none

/-- An eviction goes down until a level takes it; memory takes everything. -/
def deliver (pkt : Packet) (tick : Nat) : Path R → Option (Path R)
  | [] => some []
  | level :: below =>
    if level.busy then none
    else
      match level.cache.access level.policy level.params pkt tick with
      | .error _ => none
      | .ok found =>
        if found.satisfied then some ({ level with cache := found.cache } :: below)
        else (deliver pkt tick below).map ({ level with cache := found.cache } :: ·)

/-- A read of the first level is answered on a hit in the second, and the first
is filled with the answer. A request that a cache above has promised to answer is
not answered here. -/
def handOver (key : LineKey) (pkt : Packet) (allocate : Bool) (tick : Nat) :
    Path R → Option (Path R)
  | upper :: lower :: below =>
    if upper.busy || lower.busy || !pkt.isRead || !pkt.fromCache || pkt.cacheResponding ||
        pkt.line lower.params.blkSize ≠ key then none
    else
      match lower.cache.access lower.policy lower.params pkt tick with
      | .error _ => none
      | .ok found =>
        if found.satisfied then
          match upper.cache.handleFill upper.policy upper.params found.pkt.makeResponse
            (upper.cache.tags.findBlock upper.policy key) allocate tick with
          | .error _ => none
          | .ok filled =>
            some ({ upper with cache := filled.cache } :: { lower with cache := found.cache } ::
              below)
        else none
  | _ => none

/-- The first level evicts the line, from the temporary block if that has it. -/
def writeBack (key : LineKey) (tick : Nat) : Path R → Option (Path R)
  | level :: below =>
    if level.cache.tempBlock.holds key then
      let (cache, evicted) := Cache.evictTemp level.params (some .temp) level.cache
      evicted.head?.bind fun pkt => (deliver pkt tick below).map ({ level with cache } :: ·)
    else if level.busy then none
    else
      (level.cache.tags.findBlock level.policy key).bind fun place =>
        (deliver (Cache.evictionPacket level.params (level.cache.tags.blk place)) tick below).map
          ({ level with cache := level.cache.invalidateBlock level.policy (.tag place) } :: ·)
  | [] => none

inductive Event where
  | handOver (i : Nat) (pkt : Packet) (allocate : Bool) (tick : Nat)
  | writeBack (i : Nat) (tick : Nat)

def step (key : LineKey) (path : Path R) : Event → Option (Path R)
  | .handOver i pkt allocate tick => descend (handOver key pkt allocate tick) i path
  | .writeBack i tick => descend (writeBack key tick) i path

/-- How many levels consider the line dirty. -/
def dirtyLevels (key : LineKey) (path : Path R) : Nat := path.countP (Level.dirty key)

def Formed (blkSize : Nat) (key : LineKey) (path : Path R) : Prop :=
  ∀ level ∈ path, level.Formed blkSize key

variable {blkSize : Nat} {key : LineKey}

theorem descend_some {operation : Path R → Option (Path R)} {i : Nat} (path next : Path R)
    (taken : descend operation i path = some next) :
    ∃ above here there, path = above ++ here ∧ above.length = i ∧ operation here = some there ∧
      next = above ++ there := by
  induction i generalizing path next with
  | zero => exact ⟨[], path, next, rfl, rfl, taken, rfl⟩
  | succ _ ih =>
    cases path with
    | nil => cases taken
    | cons level below =>
      obtain ⟨rest, went, rfl⟩ := Option.map_eq_some_iff.mp taken
      obtain ⟨above, here, there, rfl, length, took, rfl⟩ := ih below rest went
      exact ⟨level :: above, here, there, rfl, by simp [length], took, rfl⟩

@[simp] theorem dirtyLevels_append (above below : Path R) :
    dirtyLevels key (above ++ below) = dirtyLevels key above + dirtyLevels key below :=
  List.countP_append

theorem dirtyLevels_cons (level : Level R) (below : Path R) :
    dirtyLevels key (level :: below) = dirtyLevels key below + if level.dirty key then 1 else 0 :=
  List.countP_cons

theorem formed_cons {below : Path R} :
    Formed blkSize key (level :: below) ↔ level.Formed blkSize key ∧ Formed blkSize key below :=
  List.forall_mem_cons

/-- An access with the temporary block unused leaves the level as it should be. -/
theorem Level.Formed.access (formed : level.Formed blkSize key) (idle : level.busy = false)
    (pkt : Packet) (tick : Nat) (found : Cache.Access R)
    (temp : found.cache.tempBlock = level.cache.tempBlock)
    (ret : level.cache.access level.policy level.params pkt tick = .ok found) :
    ({ level with cache := found.cache } : Level R).Formed blkSize key := by
  refine ⟨formed.size, ?_, fun busy => ?_⟩
  · rw [← formed.size]
    exact Cache.access_sound formed.own_sound ret
  · have busy' : level.busy = true := (congrArg CacheBlk.valid temp).symm.trans busy
    rw [idle] at busy'
    cases busy'

variable {pkt : Packet} {tick : Nat} {path next : Path R}

/-- An eviction makes at most one level dirty, and only with the data of a dirty
block. -/
theorem deliver_spec (next : Path R) (formed : Formed blkSize key path)
    (line : pkt.line blkSize = key) (leaves : pkt.isEviction = true)
    (cacheable : pkt.req.flags.uncacheable = false)
    (delivered : deliver pkt tick path = some next) : Formed blkSize key next ∧
      dirtyLevels key next ≤ dirtyLevels key path + if pkt.cmd = .writebackDirty then 1 else 0 := by
  induction path generalizing next with
  | nil =>
    cases delivered
    exact ⟨formed, Nat.le_add_right _ _⟩
  | cons level below ih =>
    obtain ⟨here, rest⟩ := formed_cons.mp formed
    unfold deliver at delivered
    split at delivered
    next => cases delivered
    next idle =>
      split at delivered
      next => cases delivered
      next found ret =>
        -- the level takes the packet, or leaves it for the next one
        have sound := here.own_sound
        have line' : pkt.line level.params.blkSize = key := by rw [here.size, line]
        obtain ⟨temp, takes⟩ := Cache.access_considersDirty sound line' leaves cacheable ret
        have after := Level.Formed.access here (by simpa using idle) pkt tick found temp ret
        split at delivered
        next =>
          cases delivered
          refine ⟨formed_cons.mpr ⟨after, rest⟩, ?_⟩
          rw [dirtyLevels_cons, dirtyLevels_cons]
          cases now : ({ level with cache := found.cache } : Level R).dirty key with
          | false => simp only [Bool.false_eq_true, if_false]; omega
          | true =>
            rcases takes now with before | ⟨_, cmd⟩
            · rw [if_pos rfl, if_pos (show level.dirty key = true from before)]
              omega
            · rw [if_pos rfl, if_pos cmd]
              omega
        next unsat =>
          obtain ⟨last, went, rfl⟩ := Option.map_eq_some_iff.mp delivered
          -- the packet goes on unchanged, so the rest of the path may gain the level
          obtain ⟨formed', _⟩ := ih last rest went
          refine ⟨formed_cons.mpr ⟨after, formed'⟩, ?_⟩
          rw [dirtyLevels_cons, dirtyLevels_cons]
          cases now : ({ level with cache := found.cache } : Level R).dirty key with
          | false => simp only [Bool.false_eq_true, if_false]; omega
          | true =>
            rcases takes now with before | ⟨sat, _⟩
            · rw [if_pos rfl, if_pos (show level.dirty key = true from before)]
              omega
            · exact absurd sat unsat

/-- The tests of a hand-over. -/
structure Admitted (key : LineKey) (upper lower : Level R) (pkt : Packet) : Prop where
  upperIdle : upper.busy = false
  lowerIdle : lower.busy = false
  read : pkt.isRead = true
  above : pkt.fromCache = true
  unanswered : pkt.cacheResponding = false
  line : pkt.line lower.params.blkSize = key

theorem handOver_some (taken : handOver key pkt allocate tick path = some next) :
    ∃ upper lower below found filled, path = upper :: lower :: below ∧
      Admitted key upper lower pkt ∧
      lower.cache.access lower.policy lower.params pkt tick = .ok found ∧
      found.satisfied = true ∧
      upper.cache.handleFill upper.policy upper.params found.pkt.makeResponse
        (upper.cache.tags.findBlock upper.policy key) allocate tick = .ok filled ∧
      next = { upper with cache := filled.cache } :: { lower with cache := found.cache } ::
        below := by
  unfold handOver at taken
  split at taken
  next upper lower below =>
    split at taken
    next => cases taken
    next admitted =>
      -- the tests are made in this order, and the first that fails ends the exchange
      simp only [ne_eq, Bool.or_eq_true, Bool.not_eq_true', decide_eq_true_eq, not_or,
        Bool.not_eq_true, Bool.not_eq_false, Decidable.not_not] at admitted
      obtain ⟨⟨⟨⟨⟨upperIdle, lowerIdle⟩, read⟩, above⟩, unanswered⟩, line⟩ := admitted
      split at taken
      next => cases taken
      next found ret =>
        split at taken
        next sat =>
          split at taken
          next => cases taken
          next filled fills =>
            cases taken
            exact ⟨upper, lower, below, found, filled, rfl,
              ⟨upperIdle, lowerIdle, read, above, unanswered, line⟩, ret, sat, fills, rfl⟩
        next => cases taken
  next => cases taken

/-- A hand-over keeps the number of dirty levels, unless the level that answers
stays dirty: then two levels are. -/
theorem handOver_spec (formed : Formed blkSize key path)
    (taken : handOver key pkt allocate tick path = some next) :
    Formed blkSize key next ∧ ∃ upper lower below place, path = upper :: lower :: below ∧
      lower.cache.tags.findBlock lower.policy key = some place ∧
      (Cache.keepsDirty lower.params pkt (lower.cache.tags.blk place) = false →
        dirtyLevels key next ≤ dirtyLevels key path) ∧
      (Cache.keepsDirty lower.params pkt (lower.cache.tags.blk place) = true →
        2 ≤ dirtyLevels key next) := by
  obtain ⟨upper, lower, below, found, filled, rfl, admitted, ret, sat, fills, rfl⟩ :=
    handOver_some taken
  obtain ⟨upperFormed, rest⟩ := formed_cons.mp formed
  obtain ⟨lowerFormed, belowFormed⟩ := formed_cons.mp rest
  obtain ⟨place, blk, present, granted, dirty, temp, same⟩ :=
    Cache.access_granted lowerFormed.own_sound admitted.line admitted.read admitted.above ret
      sat
  have line : found.pkt.makeResponse.line upper.params.blkSize = key := by
    rw [upperFormed.size, ← lowerFormed.size]
    exact same
  obtain ⟨top, apart⟩ := Cache.handleFill_considersDirty upperFormed.own_sound line
    admitted.upperIdle fills
  have lowerAfter := Level.Formed.access lowerFormed admitted.lowerIdle pkt tick found temp ret
  have upperAfter : ({ upper with cache := filled.cache } : Level R).Formed blkSize key := by
    refine ⟨upperFormed.size, ?_, apart⟩
    rw [← upperFormed.size]
    exact Cache.handleFill_sound upperFormed.own_sound line fills
  refine ⟨formed_cons.mpr ⟨upperAfter, formed_cons.mpr ⟨lowerAfter, belowFormed⟩⟩,
    upper, lower, below, place, rfl, present, ?_⟩
  -- the four dirty bits: of both levels, before and after
  have before : lower.dirty key = (lower.cache.tags.blk place).dirty := by
    rw [Level.dirty_of_idle key lower admitted.lowerIdle, Cache.lineBlk, present]
    rfl
  have after : ({ lower with cache := found.cache } : Level R).dirty key = blk.dirty := by
    rw [Level.dirty_of_idle key { lower with cache := found.cache }
      ((congrArg CacheBlk.valid temp).trans admitted.lowerIdle)]
    exact dirty
  have top : ({ upper with cache := filled.cache } : Level R).dirty key =
      (upper.dirty key || (found.pkt.cacheResponding && !found.pkt.hasSharers)) := top
  simp only [dirtyLevels_cons, before, after, top]
  obtain ⟨once, twice⟩ := granted.dirty_levels lower.params admitted.unanswered (upper.dirty key)
  constructor
  · intro cleared
    have bound := once cleared
    omega
  · intro keeps
    have bound := twice keeps
    omega

theorem evictionPacket_spec (cfg : CacheParams) {blk : CacheBlk} (aligned : key.Aligned blkSize)
    (held : blk.holds key = true) (mayNotFill : Bool) :
    ({ Cache.evictionPacket cfg blk with mayNotFill } : Packet).line blkSize = key ∧
      ({ Cache.evictionPacket cfg blk with mayNotFill } : Packet).isEviction = true ∧
      ((Cache.evictionPacket cfg blk).cmd = .writebackDirty → blk.dirty = true) := by
  obtain ⟨_, named⟩ := CacheBlk.holds_iff.mp held
  refine ⟨?_, ?_, ?_⟩
  · have same : Packet.blkAlign key.blkAddr blkSize = key.blkAddr := aligned
    simp [Packet.line, Cache.evictionPacket, Packet.isSecure, Packet.domainID, named, same]
  · unfold Packet.isEviction Cache.evictionPacket
    dsimp only
    split_ifs <;> rfl
  · unfold Cache.evictionPacket
    dsimp only
    split_ifs with dirty
    · exact fun _ => dirty
    · intro other
      cases other
    · intro other
      cases other

/-- The level that evicts its block is clean afterwards; one below it may be dirty
for it. -/
theorem dirty_moves_down {before after : Nat} {cmd : MemCmd} {dirty : Bool}
    (only : cmd = .writebackDirty → dirty = true)
    (bound : after ≤ before + if cmd = .writebackDirty then 1 else 0) :
    after + (if false = true then 1 else 0) ≤ before + if dirty = true then 1 else 0 := by
  by_cases writes : cmd = .writebackDirty
  · rw [if_pos writes] at bound
    rw [only writes]
    simpa using bound
  · rw [if_neg writes] at bound
    simp only [Bool.false_eq_true, if_false]
    omega

/-- A writeback moves the dirty line down, or drops a clean one. -/
theorem writeBack_spec (aligned : key.Aligned blkSize) (formed : Formed blkSize key path)
    (taken : writeBack key tick path = some next) :
    Formed blkSize key next ∧ dirtyLevels key next ≤ dirtyLevels key path := by
  unfold writeBack at taken
  split at taken
  next level _ =>
    obtain ⟨here, rest⟩ := formed_cons.mp formed
    split at taken
    next held =>
      obtain ⟨valid, _⟩ := CacheBlk.holds_iff.mp held
      simp only [Cache.evictTemp, valid, decide_true, Bool.and_self, if_true, List.head?_cons,
        Option.bind_some] at taken
      obtain ⟨last, delivered, rfl⟩ := Option.map_eq_some_iff.mp taken
      obtain ⟨line, leaves, dirty⟩ := evictionPacket_spec level.params aligned held true
      obtain ⟨formed', bound⟩ := deliver_spec last rest line leaves rfl delivered
      -- the temporary block was the only one with the line
      have alone := here.apart valid
      have now : ({ level with cache := { level.cache with tempBlock := {} } } :
        Level R).dirty key =
          false := by
        rw [Level.dirty_of_idle key _ rfl]
        exact congrArg (Option.any CacheBlk.dirty) alone
      have before : level.dirty key = level.cache.tempBlock.dirty := by
        rw [Level.dirty, Cache.considersDirty, alone, held]
        rfl
      refine ⟨formed_cons.mpr ⟨⟨here.size, here.sound, fun busy => by cases busy⟩, formed'⟩,
        ?_⟩
      rw [dirtyLevels_cons, dirtyLevels_cons, now, before]
      exact dirty_moves_down dirty bound
    next =>
      split at taken
      next => cases taken
      next idle =>
        have idle : level.busy = false := by simpa using idle
        obtain ⟨place, present, taken⟩ := Option.bind_eq_some_iff.mp taken
        obtain ⟨last, delivered, rfl⟩ := Option.map_eq_some_iff.mp taken
        have held := Tags.findBlock_holds present
        obtain ⟨line, leaves, dirty⟩ := evictionPacket_spec level.params aligned held false
        obtain ⟨formed', bound⟩ := deliver_spec last rest line leaves rfl delivered
        let gone := level.cache.invalidateBlock level.policy (.tag place)
        have frame := Frame.invalidateBlock level.policy level.cache (.tag place)
        have nothing : Cache.TagsChange level.policy level.cache.tags none gone.tags :=
          .kept frame.tags.noneNew
        have nowhere : ∀ other, (gone.tags.blk other).holds key = false := by
          intro other
          by_cases same : other = place
          · rw [same]
            simp [gone, Cache.invalidateBlock, Tags.invalidate, CacheBlk.invalidate, CacheBlk.holds]
          · rw [frame.tags.others other (by simp [Ne.symm same]), ← Bool.not_eq_true]
            exact fun twice => same (here.sound.same_place twice held)
        have now : ({ level with cache := gone } : Level R).dirty key = false := by
          rw [Level.dirty_of_idle key { level with cache := gone } idle]
          exact congrArg (Option.any CacheBlk.dirty) (Cache.lineBlk_none gone nowhere)
        have before : level.dirty key = (level.cache.tags.blk place).dirty := by
          rw [Level.dirty_of_idle key level idle, Cache.lineBlk, present]
          rfl
        refine ⟨formed_cons.mpr ⟨⟨here.size, here.sound.change nothing
          (fun _ named => by cases named), fun busy => ?_⟩, formed'⟩, ?_⟩
        · exact Cache.lineBlk_none gone nowhere
        · rw [dirtyLevels_cons, dirtyLevels_cons, now, before]
          exact dirty_moves_down dirty bound
  next => cases taken

/-- At most one level considers the line dirty. -/
def OneOwner (key : LineKey) (path : Path R) : Prop := dirtyLevels key path ≤ 1

/-- A hand-over that takes place does not leave the level that answers dirty. -/
def Relinquishes (key : LineKey) (path : Path R) (e : Event) : Prop :=
  ∀ i pkt allocate tick, e = .handOver i pkt allocate tick → (step key path e).isSome = true →
    ∀ lower place, path[i + 1]? = some lower →
      lower.cache.tags.findBlock lower.policy key = some place →
      Cache.keepsDirty lower.params pkt (lower.cache.tags.blk place) = false

theorem step_formed (aligned : key.Aligned blkSize) (path : Path R) (e : Event) (next : Path R)
    (formed : Formed blkSize key path) (taken : step key path e = some next) :
    Formed blkSize key next := by
  -- the levels above the operation stay as they are
  have whole (above here there : Path R) (same : path = above ++ here)
      (after : Formed blkSize key here → Formed blkSize key there) :
      Formed blkSize key (above ++ there) := by
    rw [same] at formed
    obtain ⟨first, second⟩ := List.forall_mem_append.mp formed
    exact List.forall_mem_append.mpr ⟨first, after second⟩
  cases e with
  | handOver =>
    obtain ⟨above, here, there, same, _, took, rfl⟩ := descend_some path next taken
    exact whole above here there same fun formed =>
      (handOver_spec formed took).1
  | writeBack =>
    obtain ⟨above, here, there, same, _, took, rfl⟩ := descend_some path next taken
    exact whole above here there same fun formed =>
      (writeBack_spec aligned formed took).1

theorem getElem?_below {above : Path R} (rest : Path R) (upper lower : Level R) {i : Nat}
    (length : above.length = i) : (above ++ upper :: lower :: rest)[i + 1]? = some lower := by
  rw [← length, List.getElem?_append_right (Nat.le_add_right _ _)]
  simp

theorem step_oneOwner_iff (aligned : key.Aligned blkSize) (path : Path R) (e : Event)
    (formed : Formed blkSize key path) (one : OneOwner key path) :
    (∀ next, step key path e = some next → OneOwner key next) ↔ Relinquishes key path e := by
  cases e with
  | handOver i pkt allocate tick =>
    constructor
    · intro kept _ _ _ _ event possible _ _ below present
      cases event
      obtain ⟨next, taken⟩ := Option.isSome_iff_exists.mp possible
      -- both levels would be dirty, on top of those above
      have owner := kept next taken
      obtain ⟨_, here, _, rfl, length, took, rfl⟩ := descend_some path next taken
      have formed' : Formed blkSize key here := (List.forall_mem_append.mp formed).2
      obtain ⟨_, upper, lower', rest, _, rfl, present', _, twice⟩ := handOver_spec formed' took
      rw [getElem?_below rest upper lower' length] at below
      cases below
      rw [present] at present'
      cases present'
      rw [← Bool.not_eq_true]
      intro keeps
      have two := twice keeps
      unfold OneOwner at owner
      rw [dirtyLevels_append] at owner
      omega
    · intro relinquishes next taken
      have possible : (step key path (.handOver i pkt allocate tick)).isSome = true := by
        simp [taken]
      obtain ⟨above, here, _, rfl, length, took, rfl⟩ := descend_some path next taken
      have formed' : Formed blkSize key here := (List.forall_mem_append.mp formed).2
      obtain ⟨_, upper, lower, rest, place, rfl, present, once, _⟩ := handOver_spec formed' took
      -- the levels above and below are not touched
      have bound := once (relinquishes i pkt allocate tick rfl possible lower place
        (getElem?_below rest upper lower length) present)
      unfold OneOwner at one ⊢
      rw [dirtyLevels_append] at one ⊢
      omega
  | writeBack =>
    refine ⟨fun _ _ _ _ _ event => (nomatch event), fun _ next taken => ?_⟩
    obtain ⟨_, here, _, rfl, _, took, rfl⟩ := descend_some path next taken
    have formed' : Formed blkSize key here := (List.forall_mem_append.mp formed).2
    have bound := (writeBack_spec aligned formed' took).2
    unfold OneOwner at one ⊢
    rw [dirtyLevels_append] at one ⊢
    omega

/-- An answer in Modified state leaves the block of the cache that answers clean
exactly outside the branch that keeps it dirty below level two. Along a path, in
every run of hand-overs and writebacks that starts with at most one level that
considers the line dirty, at most one level does so in every state reached
exactly when every hand-over stays outside that branch. -/
theorem modified_handed_over :
    (∀ (rp : ReplacementPolicy R) (cfg : CacheParams) (cache after : Cache R)
      (pkt out : Packet) (ref : BlkRef), pkt.isRead = true → pkt.fromCache = true →
      cache.satisfyRequest rp cfg pkt ref false false = .ok (after, out) →
      ((out.passesModified = true → (after.getBlk ref).dirty = false) ↔
        Cache.keepsDirty cfg pkt (cache.getBlk ref) = false)) ∧
    (∀ (blkSize : Nat) (key : LineKey) (path : Path R) (events : List Event),
      key.Aligned blkSize → Formed blkSize key path → OneOwner key path → (Runs.Along (step key)
          (fun path e => ∀ next, step key path e = some next → OneOwner key next) path events ↔
        Runs.Along (step key) (Relinquishes key) path events)) := by
  constructor
  · intro rp cfg _ _ _ _ _ read above ret
    obtain ⟨⟨_, rfl, granted⟩, _⟩ := Cache.satisfyRequest_granted rp cfg read above ret
    rw [Cache.getBlk_setBlk, ← granted.clears_iff, Packet.passesModified]
    simp
  · intro _ _ path events aligned formed one
    exact Runs.along_keeps_iff (step_formed aligned) (step_oneOwner_iff aligned) path events formed
      one

/-- A cache of one block that holds line 0 writable and dirty. -/
def dirtyCache : Cache Unit where
  tags :=
    { blk := fun place =>
        if place = ⟨0, 0⟩ then
          { key := ⟨0, false, 0⟩, valid := true, readable := true, writable := true, dirty := true }
        else {}
      repl := () }

/-- An empty cache over one that holds line 0 dirty. -/
def twoLevels (lowerLevel : Nat) : Path Unit :=
  [⟨oneBlock, .guarded 1, .empty ()⟩, ⟨oneBlock, .guarded lowerLevel, dirtyCache⟩]

def sharedRead : Packet := .ofBlock {} .readSharedReq 0 64

theorem twoLevels_formed (lowerLevel : Nat) : Formed 64 ⟨0, false, 0⟩ (twoLevels lowerLevel) := by
  intro _ mem
  rcases List.mem_cons.mp mem with rfl | mem
  · exact ⟨rfl, Cache.empty_sound oneBlock (.guarded 1) (), nofun⟩
  · obtain rfl := List.mem_singleton.mp mem
    refine ⟨rfl, ⟨?_, ?_, ?_⟩, nofun⟩
    · intro place valid
      by_cases here : place = ⟨0, 0⟩
      · subst here
        exact ⟨rfl, Nat.zero_lt_one⟩
      · simp [dirtyCache, here] at valid
    · intro place valid
      by_cases here : place = ⟨0, 0⟩
      · subst here
        rfl
      · simp [dirtyCache, here] at valid
    · intro p q _ _ validP validQ _
      by_cases first : p = ⟨0, 0⟩
      · by_cases second : q = ⟨0, 0⟩
        · rw [first, second]
        · simp [dirtyCache, second] at validQ
      · simp [dirtyCache, first] at validP

/-- A cache of level two hands the line over. -/
theorem levelTwo_relinquishes : Runs.Along (step ⟨0, false, 0⟩) (fun path e => ∀ next,
        step ⟨0, false, 0⟩ path e = some next → OneOwner ⟨0, false, 0⟩ next)
      (twoLevels 2) [.handOver 0 sharedRead true 0, .writeBack 0 1] := by
  refine (modified_handed_over.2 64 ⟨0, false, 0⟩ (twoLevels 2) _ rfl (twoLevels_formed 2)
    (by unfold OneOwner; decide)).mpr ?_
  refine Runs.along_cons rfl ?_ ⟨fun _ _ _ _ event => (nomatch event), fun _ _ => trivial⟩
  intro _ _ _ _ event _ _ _ below present
  cases event
  cases below
  cases present
  rfl

/-- With the default level both caches end up with the line dirty. -/
theorem levelZero_keeps_dirty :
    ((step ⟨0, false, 0⟩ (twoLevels 0) (.handOver 0 sharedRead true 0)).map
      (dirtyLevels ⟨0, false, 0⟩)) = some 2 ∧
    (dirtyCache.satisfyRequest oneBlock (.guarded 0) sharedRead (.tag ⟨0, 0⟩) false
      false).toOption.any (fun (after, out) =>
        out.passesModified && (after.getBlk (.tag ⟨0, 0⟩)).dirty) = true := by
  decide

end Path

end RasCache.Mem
