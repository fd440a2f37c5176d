import RasCache.Mem.Tracking

/-!
# What a cache has of one line

A cache may have a block of a line, packets of the line in its write buffer and
an MSHR for it. An event about other lines leaves all three alone, or evicts the
block: the block then leaves through the write buffer.
-/
namespace RasCache.Mem

open Outcomes

variable {R : Type}

/-! ### Where the valid blocks are -/

/-- The line starts at a block address. -/
def LineKey.Aligned (blkSize : Nat) (key : LineKey) : Prop :=
  Packet.blkAlign key.blkAddr blkSize = key.blkAddr

theorem Packet.line_aligned (blkSize : Nat) (pkt : Packet) : (pkt.line blkSize).Aligned blkSize :=
  Packet.blkAlign_idem _ _

/-- Every valid block sits in the set of its line, and no line is held twice. -/
structure Tags.Sound (rp : ReplacementPolicy R) (blkSize : Nat) (tags : Tags R) : Prop where
  placed : ∀ place, (tags.blk place).valid = true →
    place.set = rp.setOf (tags.blk place).key.blkAddr ∧ place.way < rp.assoc
  aligned : ∀ place, (tags.blk place).valid = true → (tags.blk place).key.Aligned blkSize
  unique : tags.Unique rp

namespace Tags.Sound

variable {rp : ReplacementPolicy R} {blkSize : Nat} {tags : Tags R}

section

variable (sound : tags.Sound rp blkSize)
include sound

theorem same_place {key : LineKey} {place other : Place} (here : (tags.blk place).holds key = true)
    (there : (tags.blk other).holds key = true) : place = other := by
  obtain ⟨valid, named⟩ := CacheBlk.holds_iff.mp here
  obtain ⟨valid', named'⟩ := CacheBlk.holds_iff.mp there
  exact sound.unique place other (sound.placed place valid).2 (sound.placed other valid').2
    valid valid' (named.trans named'.symm)

theorem findBlock (key : LineKey) (place : Place) (held : (tags.blk place).holds key = true) :
    tags.findBlock rp key = some place := by
  obtain ⟨valid, named⟩ := CacheBlk.holds_iff.mp held
  obtain ⟨set, way⟩ := sound.placed place valid
  cases found : tags.findBlock rp key with
  | none =>
    have missed := (Tags.findBlock_none_iff rp tags key).mp found place.way way
    rw [named] at set
    rw [← set] at missed
    exact absurd (missed.symm.trans held) (by decide)
  | some other =>
    have held' := Tags.findBlock_holds found
    rw [sound.same_place held' held]

theorem unheld (key : LineKey) (absent : tags.findBlock rp key = none) (place : Place) :
    (tags.blk place).holds key = false := by
  rw [← Bool.not_eq_true]
  intro held
  rw [sound.findBlock key place held] at absent
  cases absent

variable {after : Tags R}

/-- A step keeps the blocks in place: a line comes in only where it was not. -/
theorem change {line : Option LineKey} (change : Cache.TagsChange rp tags line after)
    (aligned : ∀ key, line = some key → key.Aligned blkSize) : after.Sound rp blkSize := by
  cases change with
  | kept none =>
    constructor
    · intro place valid
      obtain ⟨valid', same⟩ := none place valid
      rw [same]
      exact sound.placed place valid'
    · intro place valid
      obtain ⟨valid', same⟩ := none place valid
      rw [same]
      exact sound.aligned place valid'
    · intro p q wayP wayQ validP validQ same
      obtain ⟨validP', sameP⟩ := none p validP
      obtain ⟨validQ', sameQ⟩ := none q validQ
      exact sound.unique p q wayP wayQ validP' validQ' (sameP.symm.trans (same.trans sameQ))
  | installed key installed named absent set way one =>
    -- the line installed was nowhere before
    have nowhere (place : Place) (valid : (tags.blk place).valid = true)
        (same : (tags.blk place).key = key) : False := by
      have held := CacheBlk.holds_iff.mpr ⟨valid, same⟩
      rw [sound.findBlock key place held] at absent
      cases absent
    constructor
    · intro place valid
      rcases one place valid with ⟨rfl, line⟩ | ⟨valid', same⟩
      · rw [line]
        exact ⟨set, way⟩
      · rw [same]
        exact sound.placed place valid'
    · intro place valid
      rcases one place valid with ⟨rfl, line⟩ | ⟨valid', same⟩
      · rw [line]
        exact aligned key named
      · rw [same]
        exact sound.aligned place valid'
    · intro p q wayP wayQ validP validQ same
      rcases one p validP with ⟨rfl, lineP⟩ | ⟨validP', sameP⟩ <;>
        rcases one q validQ with ⟨rfl, lineQ⟩ | ⟨validQ', sameQ⟩
      · rfl
      · exact absurd (sameQ.symm.trans (same.symm.trans lineP)) (nowhere q validQ')
      · exact absurd (sameP.symm.trans (same.trans lineQ)) (nowhere p validP')
      · exact sound.unique p q wayP wayQ validP' validQ' (sameP.symm.trans (same.trans sameQ))

theorem congr (same : after.blk = tags.blk) : after.Sound rp blkSize := by
  constructor
  · simpa only [same] using sound.placed
  · simpa only [same] using sound.aligned
  · simpa only [Tags.Unique, same] using sound.unique

end

end Tags.Sound

namespace Cache

variable (rp : ReplacementPolicy R) (cfg : CacheParams)

theorem empty_sound (repl : R) : (Cache.empty repl).tags.Sound rp cfg.blkSize := by
  constructor
  · intro _ valid
    cases valid
  · intro _ valid
    cases valid
  · intro _ _ _ _ valid
    cases valid

theorem handle_sound {cache after : Cache R} {e : CacheEvent} {sent : Sent}
    (sound : cache.tags.Sound rp cfg.blkSize)
    (handled : cache.handle rp cfg e = .ok (after, sent)) : after.tags.Sound rp cfg.blkSize := by
  refine sound.change (handle_tags handled) ?_
  intro _ named
  cases e with
  | recvTimingReq pkt =>
    cases named
    exact Packet.line_aligned cfg.blkSize pkt
  | recvTimingResp _ pkt =>
    cases named
    exact Packet.line_aligned cfg.blkSize pkt
  | _ => cases named

/-! ### The packets of a line -/

/-- What `writeBuffer.findMatch` compares. -/
def seen (key : LineKey) (pkt : Packet) : Bool :=
  !pkt.req.flags.uncacheable && decide (pkt.line cfg.blkSize = key)

/-- The packets of the line in the write buffer. -/
def writesOf (cache : Cache R) (key : LineKey) : List Packet :=
  cache.writeBuffer.filter (seen cfg key)

theorem findWrite_eq (cache : Cache R) (key : LineKey) :
    cache.findWrite cfg key = (cache.writesOf cfg key).head? := by
  simp only [writesOf, List.head?_filter]
  rfl

/-- The block of the line. -/
def lineBlk (cache : Cache R) (key : LineKey) : Option CacheBlk :=
  (cache.tags.findBlock rp key).map cache.tags.blk

theorem line_eq_rawLine (pkt : Packet) (aligned : pkt.rawLine.Aligned cfg.blkSize) :
    pkt.line cfg.blkSize = pkt.rawLine := by
  simp only [Packet.line, Packet.rawLine, LineKey.mk.injEq, and_true]
  exact aligned

theorem unseen_of_rawLine {key : LineKey} {pkt : Packet}
    (aligned : pkt.rawLine.Aligned cfg.blkSize) (other : pkt.rawLine ≠ key) :
    seen cfg key pkt = false := by
  simp [seen, line_eq_rawLine cfg pkt aligned, other]

theorem unseen_of_line {key : LineKey} {pkt : Packet} (other : pkt.line cfg.blkSize ≠ key) :
    seen cfg key pkt = false := by
  simp [seen, other]

/-- What `doWritebacks` makes of one packet. -/
def passOn (above : Packet → Bool) (pkt : Packet) : Option Packet :=
  if above pkt then if pkt.isCleanEviction then none else some { pkt with blockCached := true }
  else some pkt

theorem passOn_seen (key : LineKey) {above : Packet → Bool} {pkt out : Packet}
    (passed : passOn above pkt = some out) : seen cfg key out = seen cfg key pkt := by
  unfold passOn at passed
  split at passed
  · split at passed <;> cases passed
    rfl
  · cases passed
    rfl

theorem doWritebacks_writesOf (cache : Cache R) (above : Packet → Bool) (writebacks : List Packet)
    (key : LineKey) : (cache.doWritebacks above writebacks).writesOf cfg key =
      cache.writesOf cfg key ++ (writebacks.filterMap (passOn above)).filter (seen cfg key) :=
  List.filter_append _ _

theorem passOn_filter (above : Packet → Bool) (writebacks : List Packet) (key : LineKey) :
    (writebacks.filterMap (passOn above)).filter (seen cfg key) =
      (writebacks.filter (seen cfg key)).filterMap (passOn above) := by
  induction writebacks with
  | nil => rfl
  | cons pkt _ ih =>
    cases passed : passOn above pkt with
    | none =>
      cases own : seen cfg key pkt <;> simp [passed, own, ih]
    | some =>
      have same := passOn_seen cfg key passed
      cases own : seen cfg key pkt <;> simp [passed, own, same, ih]

end Cache

/-! ### Blocks left alone -/

/-- The blocks that hold the line, before or after, are unchanged. -/
def Tags.Spares (key : LineKey) (before after : Tags R) : Prop :=
  ∀ place, (before.blk place).holds key = true ∨ (after.blk place).holds key = true →
    after.blk place = before.blk place

namespace Tags.Spares

variable {key : LineKey} {first second third : Tags R}

theorem of_blk (same : second.blk = first.blk) : Spares key first second := by
  intro _ _
  rw [same]

theorem trans (one : Spares key first second) (two : Spares key second third) :
    Spares key first third := by
  rintro place (before | after)
  · have kept := one place (.inl before)
    rw [← kept] at before
    rw [two place (.inl before), kept]
  · have kept := two place (.inr after)
    rw [kept] at after
    rw [kept, one place (.inr after)]

theorem holds (spares : Spares key first second) (place : Place) :
    (second.blk place).holds key = (first.blk place).holds key := by
  rw [Bool.eq_iff_iff]
  constructor
  · intro after
    rwa [← spares place (.inr after)]
  · intro before
    rwa [spares place (.inl before)]

theorem findBlock (rp : ReplacementPolicy R) (spares : Spares key first second) :
    second.findBlock rp key = first.findBlock rp key := by
  simp only [Tags.findBlock, spares.holds]

end Tags.Spares

theorem TagsKept.spares {ref : Option BlkRef} {before after : Tags R} {key : LineKey}
    (kept : TagsKept ref before after)
    (other : ∀ place, ref = some (.tag place) → (before.blk place).holds key = false) :
    before.Spares key after := by
  intro place held
  apply kept.others place
  intro here
  have free := other place here
  rcases held with held | held
  · rw [free] at held
    cases held
  · obtain ⟨valid, named⟩ := CacheBlk.holds_iff.mp held
    obtain ⟨valid', same⟩ := kept.own place valid
    rw [CacheBlk.holds_iff.mpr ⟨valid', same.symm.trans named⟩] at free
    cases free

theorem Cache.lineBlk_congr (rp : ReplacementPolicy R) {before after : Cache R} {key : LineKey}
    (spares : before.tags.Spares key after.tags) :
    after.lineBlk rp key = before.lineBlk rp key := by
  unfold lineBlk
  rw [spares.findBlock rp]
  cases found : before.tags.findBlock rp key with
  | none => rfl
  | some place =>
    have held := Tags.findBlock_holds found
    simp only [Option.map_some, spares place (.inl held)]

namespace Cache

variable (rp : ReplacementPolicy R) (cfg : CacheParams)

/-- What taking a block for another line does to the line: nothing, or its block
goes and its eviction packet is handed on. -/
inductive Evicts (key : LineKey) (before after : Cache R) (writebacks : List Packet) : Prop where
  | spared (tags : before.tags.Spares key after.tags)
    (packets : writebacks.filter (seen cfg key) = [])
  | evicted (blk : CacheBlk) (held : before.lineBlk rp key = some blk)
    (idle : before.findMshr key = none) (gone : after.lineBlk rp key = none)
    (packets : writebacks.filter (seen cfg key) = [evictionPacket cfg blk])

variable {key line : LineKey} {writebacks : List Packet} {cache after before : Cache R} {tick : Nat}
  {ref : Option BlkRef} {α : Type} {pkt : Packet} {above : Packet → Bool} {sent : Sent}
  {e : CacheEvent}

variable {rp cfg}

theorem Evicts.then {first second third : Cache R}
    (evicts : Evicts rp cfg key first second writebacks)
    (spares : second.tags.Spares key third.tags) : Evicts rp cfg key first third writebacks := by
  cases evicts with
  | spared tags packets => exact .spared (tags.trans spares) packets
  | evicted blk held idle gone packets =>
    refine .evicted blk held idle ?_ packets
    rw [lineBlk_congr rp spares]
    exact gone

theorem evictionPacket_seen (key : LineKey) {blk : CacheBlk}
    (aligned : blk.key.Aligned cfg.blkSize) :
    seen cfg key (evictionPacket cfg blk) = decide (blk.key = key) := by
  have line := line_eq_rawLine cfg (evictionPacket cfg blk) aligned
  rw [seen, line]
  rfl

theorem invalidate_blk (tags : Tags R) {place other : Place} (different : other ≠ place) :
    (tags.invalidate rp place).blk other = tags.blk other :=
  Tags.setBlk_other _ _ different

theorem allocateBlock_evicts {found : Option Place}
    (sound : cache.tags.Sound rp cfg.blkSize) (other : line ≠ key)
    (ret : cache.allocateBlock rp cfg line tick = .ok (found, after, writebacks)) :
    Evicts rp cfg key cache after writebacks := by
  have unheld : (CacheBlk.insert line).holds key = false := by
    simp [CacheBlk.holds, CacheBlk.insert, other]
  cases allocateBlock_cases ret with
  | refused _ same => exact .spared (.of_blk same) rfl
  | unused place _ same _ _ invalid =>
    refine .spared (fun q held => ?_) rfl
    simp only [insertBlock_blk] at held ⊢
    by_cases here : q = place
    · rw [if_pos here, unheld] at held
      rcases held with held | held
      · have valid := (CacheBlk.holds_iff.mp held).1
        rw [here, invalid] at valid
        cases valid
      · cases held
    · rw [if_neg here, same]
  | evicted place tags same _ _ valid idle =>
    have aligned := sound.aligned place valid
    have elsewhere (q : Place) (away : q ≠ place) :
        ((tags.invalidate rp place).insertBlock rp line place tick).blk q =
          cache.tags.blk q := by
      rw [insertBlock_blk, if_neg away, invalidate_blk tags away, same]
    have unheld : (((tags.invalidate rp place).insertBlock rp line place tick).blk
        place).holds key = false := by
      rw [insertBlock_blk, if_pos rfl]
      exact unheld
    by_cases own : (cache.tags.blk place).key = key
    · -- the victim is the block of the line, and the only one
      have held := CacheBlk.holds_iff.mpr ⟨valid, own⟩
      rw [own] at idle
      refine .evicted (cache.tags.blk place) ?_ idle ?_ ?_
      · rw [lineBlk, sound.findBlock key place held]
        rfl
      · rw [lineBlk, Option.map_eq_none_iff, Tags.findBlock_none_iff]
        intro way _
        rw [← Bool.not_eq_true]
        intro again
        by_cases here : (⟨rp.setOf key.blkAddr, way⟩ : Place) = place
        · rw [here, unheld] at again
          cases again
        · rw [elsewhere _ here] at again
          exact here (sound.same_place again held)
      · rw [List.filter_singleton, evictionPacket_seen _ aligned]
        simp [own]
    · refine .spared (fun q held => ?_) ?_
      · by_cases here : q = place
        · rw [here, unheld] at held
          rcases held with held | held
          · exact absurd (CacheBlk.holds_iff.mp held).2 own
          · cases held
        · exact elsewhere q here
      · rw [List.filter_singleton, evictionPacket_seen _ aligned]
        simp [own]

/-! ### Work on the block of another line -/

variable (cfg) in
/-- The block `ref`, if there is one, is of another line. -/
def Off (key : LineKey) (ref : Option BlkRef) (cache : Cache R) : Prop :=
  ∀ used, ref = some used → (cache.getBlk used).valid = true →
    (cache.getBlk used).key.Aligned cfg.blkSize ∧ (cache.getBlk used).key ≠ key

theorem Off.spares {after : Tags R} (off : Off cfg key ref before)
    (kept : TagsKept ref before.tags after) : before.tags.Spares key after := by
  apply kept.spares
  intro _ here
  rw [← Bool.not_eq_true, CacheBlk.holds_iff]
  rintro ⟨valid, named⟩
  exact (off _ here valid).2 named

theorem Off.stays (off : Off cfg key ref before) (line : LineStays ref before after) :
    Off cfg key ref after := by
  intro used here valid
  obtain ⟨valid', same⟩ := line used here valid
  rw [same]
  exact off used here valid'

theorem Off.writesOf (off : Off cfg key ref before) (own : WritesOwn ref before after) :
    after.writesOf cfg key = before.writesOf cfg key := by
  obtain ⟨pushed, list, own⟩ := own
  have none : pushed.filter (seen cfg key) = [] := by
    rw [List.filter_eq_nil_iff]
    intro pkt mem
    obtain ⟨used, here, valid, line⟩ := own pkt mem
    obtain ⟨_, _⟩ := off used here valid
    rw [unseen_of_rawLine cfg (by rwa [line]) (by rwa [line])]
    decide
  rw [Cache.writesOf, list, List.filter_append, none, List.append_nil]
  rfl

theorem off_findBlock {place : Place} (aligned : line.Aligned cfg.blkSize) (other : line ≠ key)
    (found : cache.tags.findBlock rp line = some place) :
    Off cfg key (some (.tag place)) cache := by
  intro _ here _
  cases here
  have named := (CacheBlk.holds_iff.mp (Tags.findBlock_holds found)).2
  exact ⟨by rwa [getBlk, named], by rwa [getBlk, named]⟩

/-! ### The write buffer -/

theorem filter_map_unseen (p : α → Bool) (f : α → α) (list : List α)
    (unseen : ∀ a ∈ list, f a = a ∨ (p a = false ∧ p (f a) = false)) :
    (list.map f).filter p = list.filter p := by
  induction list with
  | nil => rfl
  | cons a _ ih =>
    have tail := ih fun b mem => unseen b (List.mem_cons_of_mem _ mem)
    rcases unseen a List.mem_cons_self with same | ⟨before, after⟩
    · simp only [List.map_cons, same, List.filter_cons, tail]
    · simp [before, after, tail]

theorem filter_erase_unseen [DecidableEq α] {p : α → Bool} {a : α} (list : List α)
    (unseen : p a = false) : (list.erase a).filter p = list.filter p := by
  induction list with
  | nil => rfl
  | cons b _ ih =>
    by_cases same : b = a
    · simp [same, unseen]
    · simp [same, List.filter_cons, ih]

theorem findWrite_other {wb : Packet} (found : cache.findWrite cfg pkt.rawLine = some wb)
    (other : pkt.line cfg.blkSize ≠ key) : seen cfg key wb = false := by
  have shown := List.find?_some found
  simp only [Bool.and_eq_true, decide_eq_true_eq] at shown
  have aligned : pkt.rawLine.Aligned cfg.blkSize := by
    rw [← shown.2]
    exact Packet.line_aligned cfg.blkSize wb
  apply unseen_of_line
  rwa [shown.2, ← line_eq_rawLine cfg pkt aligned]

theorem dropWrite_writesOf (cache : Cache R) (other : pkt.line cfg.blkSize ≠ key) :
    (cache.dropWrite cfg pkt).writesOf cfg key = cache.writesOf cfg key := by
  unfold dropWrite
  split
  next found =>
    exact filter_erase_unseen cache.writeBuffer (findWrite_other found other)
  next => rfl

/-! ### Requests for another line -/

theorem blockForWrite_evicts {out : Option Place} (sound : cache.tags.Sound rp cfg.blkSize)
    (other : pkt.line cfg.blkSize ≠ key) (ret : cache.blockForWrite rp cfg pkt
      (cache.tags.findBlock rp (pkt.line cfg.blkSize)) tick = .ok (out, after, writebacks)) :
    Evicts rp cfg key cache after writebacks ∧ after.writeBuffer = cache.writeBuffer ∧
      ∀ used, out = some used → Off cfg key (some (.tag used)) after := by
  have aligned := Packet.line_aligned cfg.blkSize pkt
  generalize found : cache.tags.findBlock rp (pkt.line cfg.blkSize) = block at ret
  cases blockForWrite_cases ret with
  | present place =>
    refine ⟨.spared (.of_blk rfl) rfl, rfl, fun used here => ?_⟩
    cases here
    exact off_findBlock aligned other found
  | denied => exact ⟨.spared (.of_blk rfl) rfl, rfl, fun used here => by cases here⟩
  | refused _ _ took =>
    have evicts := allocateBlock_evicts sound other took
    have writes := allocateBlock_writes took
    exact ⟨evicts, writes, fun used here => by cases here⟩
  | allocated place room _ took =>
    have evicts := allocateBlock_evicts sound other took
    have writes := allocateBlock_writes took
    -- the block allocated is of the line of the packet
    have inserted := allocateBlock_some took
    have off : Off cfg key (some (.tag place)) room := by
      intro _ here _
      cases here
      simp only [getBlk, inserted]
      exact ⟨aligned, other⟩
    have readied : Frame (some (.tag place)) room
        (room.setBlk (.tag place) { room.getBlk (.tag place) with readable := true }) :=
      .setBlk room (.tag place) _ fun valid => ⟨valid, rfl⟩
    refine ⟨evicts.then (off.spares readied.tags), writes, fun used here => ?_⟩
    cases here
    exact off.stays readied.line

variable (rp cfg) in
/-- What a request for another line leaves of the line, before any miss. -/
structure Passes (key : LineKey) (before : Cache R) (found : Access R) : Prop where
  evicts : Evicts rp cfg key before found.cache found.writebacks
  writes : found.cache.writesOf cfg key = before.writesOf cfg key
  off : ∀ used, found.place = some used → Off cfg key (some (.tag used)) found.cache

variable {found : Access R} {mshr : Mshr}

theorem BlkAccess.passes (key : LineKey) (sound : cache.tags.Sound rp cfg.blkSize)
    (other : pkt.line cfg.blkSize ≠ key) (outcome : BlkAccess rp cfg cache pkt
      (cache.tags.findBlock rp (pkt.line cfg.blkSize)) tick found) :
    Passes rp cfg key cache found := by
  have aligned := Packet.line_aligned cfg.blkSize pkt
  -- the outcomes that leave the cache as it is
  have same (satisfied : Bool) : Passes rp cfg key cache
      ⟨satisfied, cache.tags.findBlock rp (pkt.line cfg.blkSize), cache, [], pkt⟩ :=
    ⟨.spared (.of_blk rfl) rfl, rfl, fun used here =>
      off_findBlock aligned other here⟩
  cases outcome with
  | swallowed => exact same true
  | cleanEvict => exact same _
  | missed => exact same _
  | writtenThrough => exact ⟨.spared (.of_blk rfl) rfl, rfl, fun used here => by cases here⟩
  | unplaced _ _ _ took =>
    obtain ⟨evicts, writes, _⟩ := blockForWrite_evicts sound other took
    refine ⟨evicts, ?_, fun used here => by cases here⟩
    simp only [writesOf, writes]
  | written used room _ _ took =>
    obtain ⟨evicts, writes, off⟩ := blockForWrite_evicts sound other took
    have off := off used rfl
    have written : Frame (some (.tag used)) room
        (room.setBlk (.tag used) (writeBits pkt (room.getBlk (.tag used)))) :=
      .setBlk room (.tag used) _ fun valid => ⟨valid, rfl⟩
    refine ⟨evicts.then (off.spares written.tags), ?_, fun place here => ?_⟩
    · rw [off.writesOf written.writes]
      simp only [writesOf, writes]
    · cases here
      exact off.stays written.line
  | satisfied used after out here _ _ request =>
    have off := off_findBlock aligned other here
    have frame := (satisfyRequest_frame
      request).trans (maintainClusivity_frame rp cfg after out.fromCache _)
    refine ⟨.spared (off.spares frame.tags) rfl, off.writesOf frame.writes, fun place named => ?_⟩
    cases named
    exact off.stays frame.line

theorem access_passes (sound : cache.tags.Sound rp cfg.blkSize)
    (other : pkt.line cfg.blkSize ≠ key) (ret : cache.access rp cfg pkt tick = .ok found) :
    Passes rp cfg key cache found := by
  have aligned := Packet.line_aligned cfg.blkSize pkt
  have touched := lookedUp_blk rp cfg cache pkt tick
  have lookup (used : Place) (here : cache.tags.findBlock rp (pkt.line cfg.blkSize) = some used) :
      Off cfg key (some (.tag used)) (cache.lookedUp rp cfg pkt tick) := by
    rw [← findBlock_congr _ touched] at here
    exact off_findBlock aligned other here
  cases access_cases ret with
  | flushed place _ present =>
    have off := off_findBlock aligned other present
    have frame := Frame.invalidateBlock rp cache (.tag place)
    have held := CacheBlk.holds_iff.mp (Tags.findBlock_holds present)
    have apart : (cache.tags.blk place).key.Aligned cfg.blkSize ∧
        (cache.tags.blk place).key ≠ key := off _ rfl held.1
    refine ⟨.spared (off.spares frame.tags) ?_, off.writesOf frame.writes,
      fun used here => by cases here⟩
    have unseen : seen cfg key (evictionPacket cfg (cache.tags.blk place)) = false := by
      rw [evictionPacket_seen key apart.1]
      exact decide_eq_false apart.2
    simp [unseen]
  | bypassed => exact ⟨.spared (.of_blk rfl) rfl, rfl, fun used here => by cases here⟩
  | maintenance => exact ⟨.spared (.of_blk touched) rfl, rfl, lookup⟩
  | merged wb _ _ _ waits =>
    refine ⟨.spared (.of_blk touched) rfl, ?_, lookup⟩
    have unseen := findWrite_other waits other
    apply filter_map_unseen
    intro p _
    by_cases same : p = wb
    · refine .inr ⟨by rwa [same], ?_⟩
      rw [if_pos same, same]
      exact unseen
    · exact .inl (if_neg same)
  | accessed start _ _ begins _ outcome =>
    have same : start.tags.blk = cache.tags.blk ∧
        start.writesOf cfg key = cache.writesOf cfg key ∧ start.mshrs = cache.mshrs := by
      rw [begins]
      split
      · rw [dropWrite_tags, dropWrite_writesOf _ other]
        exact ⟨touched, rfl, (dropWrite_queue _ pkt).mshrs⟩
      · exact ⟨touched, rfl, rfl⟩
    obtain ⟨blocks, writes, mshrs⟩ := same
    rw [← findBlock_congr _ blocks] at outcome
    obtain ⟨evicts, later, off⟩ := outcome.passes key (sound.congr blocks) other
    refine ⟨?_, later.trans writes, off⟩
    -- the access starts from the same blocks and the same queue
    cases evicts with
    | spared tags packets => exact .spared (Tags.Spares.trans (.of_blk blocks) tags) packets
    | evicted blk held idle gone packets =>
      refine .evicted blk ?_ ?_ gone packets
      · rwa [lineBlk_congr rp (Tags.Spares.of_blk blocks)] at held
      · simpa only [findMshr, mshrs] using idle

/-! ### Whole events about other lines -/

variable (rp cfg) in
/-- What an event about other lines does to a line: nothing, or its block is
evicted and leaves through the write buffer. -/
inductive Aside (key : LineKey) (before after : Cache R) : Prop where
  | kept (blk : after.lineBlk rp key = before.lineBlk rp key)
    (writes : after.writesOf cfg key = before.writesOf cfg key)
  | evicted (blk : CacheBlk) (above : Packet → Bool)
    (held : before.lineBlk rp key = some blk) (idle : before.findMshr key = none)
    (gone : after.lineBlk rp key = none)
    (writes : after.writesOf cfg key = before.writesOf cfg key ++
      (passOn above (evictionPacket cfg blk)).toList)

theorem Evicts.aside {room : Cache R} (evicts : Evicts rp cfg key before room writebacks)
    (spares : room.tags.Spares key after.tags)
    (writes : after.writesOf cfg key = before.writesOf cfg key ++
      (writebacks.filter (seen cfg key)).filterMap (passOn above)) :
    Aside rp cfg key before after := by
  cases evicts with
  | spared tags packets =>
    rw [packets, List.filterMap_nil, List.append_nil] at writes
    exact .kept (lineBlk_congr rp (tags.trans spares)) writes
  | evicted blk held idle gone packets =>
    refine .evicted blk above held idle ?_ ?_
    · rw [lineBlk_congr rp spares]
      exact gone
    · rw [writes, packets]
      cases passed : passOn above (evictionPacket cfg blk) <;> simp [passed]

section

variable (sound : cache.tags.Sound rp cfg.blkSize) (other : pkt.line cfg.blkSize ≠ key)
include sound other

theorem recvTimingReq_aside (ret : cache.recvTimingReq rp cfg above pkt tick = .ok (after, sent)) :
    Aside rp cfg key cache after := by
  obtain ⟨found, accessed, ret⟩ := bind_ok_iff.mp ret
  obtain ⟨evicts, writes, off⟩ := access_passes sound other accessed
  have room : (found.cache.doWritebacks above found.writebacks).writesOf cfg key =
      cache.writesOf cfg key ++
        (found.writebacks.filter (seen cfg key)).filterMap (passOn above) := by
    rw [doWritebacks_writesOf, passOn_filter, writes]
  dsimp only at ret
  split at ret
  next =>
    cases ret
    exact evicts.aside (.of_blk rfl) room
  next missed =>
    rw [access_missed (by simpa using missed) accessed]
      at ret
    obtain ⟨_, outcome⟩ := handleTimingReqMiss_cases ret
    cases outcome with
    | pushed =>
      refine evicts.aside (.of_blk rfl) (Eq.trans ?_ room)
      have unseen := unseen_of_line cfg other
      simp [writesOf, List.filter_append, unseen]
    | opened =>
      -- the block that waits for the miss is of the line of the packet
      refine evicts.aside ?_ (Eq.trans ?_ room)
      · cases place : found.place with
        | none => exact .of_blk rfl
        | some used =>
          have waits : Frame (some (.tag used)) found.cache (found.cache.setBlk (.tag used)
              { found.cache.getBlk (.tag used) with readable := false }) :=
            .setBlk found.cache (.tag used) _ fun valid => ⟨valid, rfl⟩
          exact (off used place).spares waits.tags
      · cases found.place <;> rfl
    | _ => exact evicts.aside (.of_blk rfl) room

/-- The fill for another line leaves a block of that line to work on. -/
theorem fillStage_evicts {filled : Cache R} {resp : Packet}
    (ret : cache.fillStage rp cfg mshr pkt tick = .ok (ref, filled, writebacks, resp)) :
    Evicts rp cfg key cache filled writebacks ∧ filled.writeBuffer = cache.writeBuffer ∧
      Off cfg key ref filled := by
  have aligned := Packet.line_aligned cfg.blkSize pkt
  -- a block whose line is the packet's is off the line
  have named (room : Cache R) (used : BlkRef)
      (line : (room.getBlk used).key = pkt.line cfg.blkSize) :
      Off cfg key (some used) room := by
    intro _ here _
    cases here
    exact ⟨by rwa [line], by rwa [line]⟩
  cases fillStage_cases ret with
  | filled _ _ _ fill =>
    generalize found : cache.tags.findBlock rp (pkt.line cfg.blkSize) = place at fill
    generalize cache.allocates cfg mshr pkt = allocate at fill
    cases handleFill_cases fill with
    | present place =>
      have off := off_findBlock aligned other found
      have written : Frame (some (.tag place)) cache
          (cache.setBlk (.tag place) (fillBits pkt (cache.getBlk (.tag place)))) :=
        .setBlk cache (.tag place) _ fun valid => ⟨valid, rfl⟩
      exact ⟨.spared (off.spares written.tags) rfl, rfl, off.stays written.line⟩
    | allocated place room writebacks _ took =>
      have evicts := allocateBlock_evicts sound other took
      have writes := allocateBlock_writes took
      have inserted := allocateBlock_some took
      have off := named room (.tag place) (by rw [getBlk, inserted]; rfl)
      have written : Frame (some (.tag place)) room
          (room.setBlk (.tag place) (fillBits pkt (room.getBlk (.tag place)))) :=
        .setBlk room (.tag place) _ fun valid => ⟨valid, rfl⟩
      exact ⟨evicts.then (off.spares written.tags), writes, off.stays written.line⟩
    | temporary _ room writebacks _ _ refused =>
      refine ⟨?_, ?_, named _ .temp rfl⟩
      · rcases refused with ⟨_, rfl, rfl⟩ | ⟨_, took⟩
        · exact .spared (.of_blk rfl) rfl
        · exact (allocateBlock_evicts sound other took).then (.of_blk rfl)
      · rcases refused with ⟨_, rfl, rfl⟩ | ⟨_, took⟩
        · rfl
        · have writes := allocateBlock_writes took
          exact writes
  | passed =>
    refine ⟨.spared (.of_blk rfl) rfl, rfl, ?_⟩
    cases found : cache.tags.findBlock rp (pkt.line cfg.blkSize) with
    | none => exact fun used here => by cases here
    | some place => exact off_findBlock aligned other found

end

theorem evictTemp_packets (mem : pkt ∈ (evictTemp cfg ref cache).2) :
    ref = some .temp ∧ cache.tempBlock.valid = true ∧ pkt.rawLine = cache.tempBlock.key := by
  unfold evictTemp at mem
  split at mem
  next dropped =>
    rw [Bool.and_eq_true, decide_eq_true_eq] at dropped
    obtain rfl := List.mem_singleton.mp mem
    exact ⟨dropped.1, dropped.2, rfl⟩
  next => cases mem

theorem evictTemp_writes (ref : Option BlkRef) (cache : Cache R) :
    (evictTemp cfg ref cache).1.writeBuffer = cache.writeBuffer := by
  unfold evictTemp
  split <;> rfl

theorem recvTimingResp_aside {id : Nat} {sent : List Packet}
    (sound : cache.tags.Sound rp cfg.blkSize) (other : pkt.line cfg.blkSize ≠ key)
    (ret : cache.recvTimingResp rp cfg above id pkt tick = .ok (after, sent)) :
    Aside rp cfg key cache after := by
  obtain ⟨r⟩ := recvTimingResp_ok ret
  obtain ⟨evicts, writes, off⟩ := fillStage_evicts sound other r.fills
  let retired := retireStage id r.left r.ref r.serviced
  have serviced : Off cfg key r.ref r.serviced := off.stays r.worked.line
  have stayed : Off cfg key r.ref retired :=
    serviced.stays (retireStage_line id r.left r.ref r.serviced)
  -- the temporary block is of the line of the packet, so what it leaves is too
  have unseen : ((evictTemp cfg r.ref retired).2).filter (seen cfg key) = [] := by
    rw [List.filter_eq_nil_iff]
    intro wb mem
    obtain ⟨here, valid, line⟩ := evictTemp_packets mem
    obtain ⟨aligned, apart⟩ := stayed .temp here valid
    rw [unseen_of_rawLine cfg (by rw [line]; exact aligned) (by rw [line]; exact apart)]
    decide
  have buffer : (evictTemp cfg r.ref retired).1.writesOf cfg key =
      cache.writesOf cfg key := by
    have same : (evictTemp cfg r.ref retired).1.writeBuffer = r.serviced.writeBuffer := by
      rw [evictTemp_writes, retireStage_writes]
    rw [writesOf, same]
    refine (off.writesOf r.worked.writes).trans ?_
    rw [writesOf, writes]
    rfl
  have after_writes : after.writesOf cfg key = cache.writesOf cfg key ++
      (r.writebacks.filter (seen cfg key)).filterMap (passOn above) := by
    refine (congrArg (fun last => writesOf cfg last key) r.retires).trans ?_
    rw [doWritebacks_writesOf, passOn_filter, List.filter_append, unseen, List.append_nil]
    exact congrArg (· ++ _) buffer
  exact evicts.aside (off.spares r.tags) after_writes

theorem sendMSHRQueuePacket_aside (key : LineKey) {id : Nat} {pendingModifiedResp : Bool}
    (sound : cache.tags.Sound rp cfg.blkSize)
    (other : ∀ entry ∈ cache.mshrs, entry.id = id → entry.mshr.key ≠ key)
    (ret : cache.sendMSHRQueuePacket rp cfg above id pendingModifiedResp =
      .ok (after, sent)) : Aside rp cfg key cache after := by
  obtain ⟨entry, pkt, isForward, wa, found, _, _, _, outcome⟩ := sendMSHRQueuePacket_cases ret
  cases outcome with
  | plain => exact .kept rfl rfl
  | cleaned place _ present =>
    obtain ⟨mem, named⟩ := findId_mem found
    have held := CacheBlk.holds_iff.mp (Tags.findBlock_holds present)
    let start : Cache R :=
      { cache.setMshr id (Mshr.markInService { entry.mshr with isForward } pendingModifiedResp) with
        writeAllocator := wa }
    have off : Off cfg key (some (.tag place)) start := by
      intro _ here _
      cases here
      refine ⟨sound.aligned place held.1, ?_⟩
      simp only [start, getBlk, setMshr]
      rw [held.2]
      exact other entry mem named
    -- the block is marked clean, then its data are written
    have cleaned : Frame (some (.tag place)) start (start.setBlk (.tag place)
        { start.getBlk (.tag place) with dirty := false, writable := false }) :=
      .setBlk start (.tag place) _ fun valid => ⟨valid, rfl⟩
    have written := Frame.doWritebacks (.tag place) (start.setBlk (.tag place)
        { start.getBlk (.tag place) with dirty := false, writable := false }) above
      [writecleanPacket cfg (cache.tags.blk place) pkt] ?_
    · have frame := cleaned.trans written
      have blk := lineBlk_congr rp (off.spares frame.tags)
      exact .kept blk (off.writesOf frame.writes)
    · intro _ mem
      obtain rfl := List.mem_singleton.mp mem
      simp only [getBlk, setBlk, Tags.setBlk_same]
      exact ⟨held.1, rfl⟩

theorem Mshr.handleSnoop_pkt {order : Nat} {result : Mshr.SnoopResult}
    (handled : mshr.handleSnoop pkt order = some result) (blkSize : Nat) :
    result.pkt.line blkSize = pkt.line blkSize := by
  cases Mshr.handleSnoop_cases handled <;> rfl

theorem snoopWrite_writesOf (cache : Cache R) (other : pkt.line cfg.blkSize ≠ key) :
    (cache.snoopWrite cfg pkt).writesOf cfg key = cache.writesOf cfg key := by
  unfold snoopWrite
  split
  next => rfl
  next wb found =>
    have shown := List.find?_some found
    simp only [Bool.and_eq_true, decide_eq_true_eq] at shown
    -- the packet that waits is of the line of the snoop
    have unseen : seen cfg key wb = false := by
      apply unseen_of_line
      rwa [shown.2]
    split
    · exact filter_erase_unseen cache.writeBuffer unseen
    · split
      · apply filter_map_unseen
        intro p _
        by_cases same : p = wb
        · refine .inr ⟨by rwa [same], ?_⟩
          rw [if_pos same, same]
          exact unseen
        · exact .inl (if_neg same)
      · rfl

theorem snoopBlock_kept (above : Packet → Bool) (cache : Cache R) (pkt : Packet)
    (aligned : line.Aligned cfg.blkSize) (apart : line ≠ key) (other : pkt.line cfg.blkSize ≠ key) :
    (cache.snoopBlock rp cfg above line pkt).lineBlk rp key = cache.lineBlk rp key ∧
      (cache.snoopBlock rp cfg above line pkt).writesOf cfg key = cache.writesOf cfg key := by
  have tags := snoopWrite_tags cfg cache pkt
  have writes := snoopWrite_writesOf cache other
  have same : (cache.snoopWrite cfg pkt).lineBlk rp key = cache.lineBlk rp key := by
    rw [lineBlk, tags]
    rfl
  unfold snoopBlock
  dsimp only
  split
  · exact ⟨rfl, rfl⟩
  · split
    -- the block found is of the line of the snoop, so the other line is off it
    next place found =>
      rw [← tags] at found
      have off := off_findBlock aligned apart found
      have frame := replaySnoop_frame rp cfg above (cache.snoopWrite cfg pkt) pkt (.tag place)
      exact ⟨(lineBlk_congr rp (off.spares frame.tags)).trans same,
        (off.writesOf frame.writes).trans writes⟩
    next => exact ⟨same, writes⟩

theorem recvTimingSnoopReq_kept (other : pkt.line cfg.blkSize ≠ key)
    (ret : cache.recvTimingSnoopReq rp cfg above pkt = .ok after) :
    after.lineBlk rp key = cache.lineBlk rp key ∧
      after.writesOf cfg key = cache.writesOf cfg key := by
  have aligned := Packet.line_aligned cfg.blkSize pkt
  cases recvTimingSnoopReq_cases ret with
  | alone => exact snoopBlock_kept above cache pkt aligned other other
  | skipped => exact ⟨rfl, rfl⟩
  | kept => exact ⟨rfl, rfl⟩
  | passed entry result _ handled =>
    -- the MSHR marks the packet, which keeps its line
    have line := Mshr.handleSnoop_pkt handled cfg.blkSize
    exact snoopBlock_kept above
      { cache.setMshr entry.id result.mshr with order := cache.order + 1 } result.pkt
      aligned other (by rwa [line])

theorem lineBlk_of_holds (key : LineKey) (place : Place)
    (sound : cache.tags.Sound rp cfg.blkSize) (held : (cache.tags.blk place).holds key = true) :
    cache.lineBlk rp key = some (cache.tags.blk place) := by
  rw [lineBlk, sound.findBlock key place held]
  rfl

theorem doWritebacks_nil (cache : Cache R) (above : Packet → Bool) :
    cache.doWritebacks above [] = cache := by
  simp [doWritebacks]

variable (rp cfg) in
/-- What every cache keeps, whatever it receives. -/
structure Formed (cache : Cache R) : Prop where
  sound : cache.tags.Sound rp cfg.blkSize
  ordered : cache.Ordered
  single : cache.OneEach

theorem empty_formed (repl : R) : (Cache.empty repl).Formed rp cfg :=
  ⟨empty_sound rp cfg repl, empty_ordered repl, empty_oneEach repl⟩

theorem Formed.handle (formed : cache.Formed rp cfg)
    (handled : cache.handle rp cfg e = .ok (after, sent)) : after.Formed rp cfg :=
  ⟨handle_sound rp cfg formed.sound handled,
    handle_ordered formed.ordered handled,
    handle_oneEach formed.single handled⟩

end Cache

end RasCache.Mem
