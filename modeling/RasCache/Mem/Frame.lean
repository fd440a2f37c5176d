import RasCache.Mem.Stages

/-!
# What servicing a response leaves alone

Once a response has its block, everything `recvTimingResp` does to the tag array
happens at that block: the targets are satisfied from it, snoops are replayed on
it, and it may be invalidated. No other place changes, and no line comes in.
-/
namespace RasCache.Mem

open Outcomes

variable {R : Type}

/-- The tags change at most at the block `ref`, and hold no line they did not
hold. With no block of the tag array in `ref`, nothing changes at all. -/
structure TagsKept (ref : Option BlkRef) (before after : Tags R) : Prop where
  others : ∀ place, ref ≠ some (.tag place) → after.blk place = before.blk place
  repl : (∀ place, ref ≠ some (.tag place)) → after.repl = before.repl
  own : ∀ place, (after.blk place).valid = true →
    (before.blk place).valid = true ∧ (after.blk place).key = (before.blk place).key

namespace TagsKept

theorem refl (ref : Option BlkRef) (tags : Tags R) : TagsKept ref tags tags :=
  ⟨fun _ _ => rfl, fun _ => rfl, fun _ valid => ⟨valid, rfl⟩⟩

variable {ref : Option BlkRef}

theorem trans {first second third : Tags R} (one : TagsKept ref first second)
    (two : TagsKept ref second third) : TagsKept ref first third := by
  refine ⟨fun place other => ?_, fun outside => ?_, fun place valid => ?_⟩
  · rw [two.others place other, one.others place other]
  · rw [two.repl outside, one.repl outside]
  · obtain ⟨valid, key⟩ := two.own place valid
    obtain ⟨valid', key'⟩ := one.own place valid
    exact ⟨valid', key.trans key'⟩

theorem eq_of_outside {before after : Tags R} (kept : TagsKept ref before after)
    (outside : ∀ place, ref ≠ some (.tag place)) : after = before := by
  have blocks : after.blk = before.blk := funext fun place => kept.others place (outside place)
  have repl := kept.repl outside
  cases after
  cases before
  simp_all

end TagsKept

/-- The MSHRs and the order counter are untouched. -/
structure QueueKept (before after : Cache R) : Prop where
  mshrs : after.mshrs = before.mshrs
  order : after.order = before.order

variable {second first third : Cache R}

theorem QueueKept.trans (one : QueueKept first second) (two : QueueKept second third) :
    QueueKept first third :=
  ⟨two.mshrs.trans one.mshrs, two.order.trans one.order⟩

/-- The block `ref` keeps its line, or is left invalid. -/
def LineStays (ref : Option BlkRef) (before after : Cache R) : Prop :=
  ∀ used, ref = some used → (after.getBlk used).valid = true →
    (before.getBlk used).valid = true ∧ (after.getBlk used).key = (before.getBlk used).key

/-- The packets that join the write buffer are of the line of the block `ref`. -/
def WritesOwn (ref : Option BlkRef) (before after : Cache R) : Prop :=
  ∃ pushed, after.writeBuffer = before.writeBuffer ++ pushed ∧
    ∀ pkt ∈ pushed, ∃ used, ref = some used ∧ (before.getBlk used).valid = true ∧
      pkt.rawLine = (before.getBlk used).key

/-- The frame of the code that works on the block `ref`. -/
structure Frame (ref : Option BlkRef) (before after : Cache R) : Prop where
  tags : TagsKept ref before.tags after.tags
  queue : QueueKept before after
  line : LineStays ref before after
  writes : WritesOwn ref before after

theorem WritesOwn.of_eq {ref : Option BlkRef} {before after : Cache R}
    (same : after.writeBuffer = before.writeBuffer) : WritesOwn ref before after := by
  refine ⟨[], by simp [same], fun pkt mem => ?_⟩
  cases mem

namespace Frame

theorem refl (ref : Option BlkRef) (cache : Cache R) : Frame ref cache cache :=
  ⟨.refl ref cache.tags, ⟨rfl, rfl⟩, fun _ _ valid => ⟨valid, rfl⟩, .of_eq rfl⟩

theorem trans {ref : Option BlkRef} (one : Frame ref first second) (two : Frame ref second third) :
    Frame ref first third := by
  refine ⟨one.tags.trans two.tags, one.queue.trans two.queue, ?_, ?_⟩
  · intro used named valid
    obtain ⟨valid, key⟩ := two.line used named valid
    obtain ⟨valid', key'⟩ := one.line used named valid
    exact ⟨valid', key.trans key'⟩
  · obtain ⟨early, before, own⟩ := one.writes
    obtain ⟨late, after, own'⟩ := two.writes
    refine ⟨early ++ late, by rw [after, before, List.append_assoc], fun pkt mem => ?_⟩
    rcases List.mem_append.mp mem with mem | mem
    · exact own pkt mem
    · obtain ⟨used, named, valid, line⟩ := own' pkt mem
      obtain ⟨valid', key⟩ := one.line used named valid
      exact ⟨used, named, valid', line.trans key⟩

theorem setBlk (cache : Cache R) (ref : BlkRef) (blk : CacheBlk)
    (line : blk.valid = true → (cache.getBlk ref).valid = true ∧
      blk.key = (cache.getBlk ref).key) : Frame (some ref) cache (cache.setBlk ref blk) := by
  cases ref with
  | temp =>
    refine ⟨.refl _ _, ⟨rfl, rfl⟩, fun used named valid => ?_, .of_eq rfl⟩
    cases named
    exact line valid
  | tag place =>
    have own : LineStays (some (.tag place)) cache (cache.setBlk (.tag place) blk) := by
      intro _ named valid
      cases named
      simp only [Cache.getBlk, Cache.setBlk, Tags.setBlk_same] at valid line ⊢
      exact line valid
    refine ⟨⟨fun other different => ?_, fun outside => absurd rfl (outside place), ?_⟩,
      ⟨rfl, rfl⟩, own, .of_eq rfl⟩
    · refine Tags.setBlk_other _ _ fun same => different ?_
      rw [same]
    · -- the block written keeps its line, and the others are not written
      intro other valid
      by_cases same : other = place
      · subst same
        exact own _ rfl valid
      · rw [show (cache.setBlk (.tag place) blk).tags.blk other = cache.tags.blk other from
          Tags.setBlk_other _ _ same] at valid ⊢
        exact ⟨valid, rfl⟩

theorem invalidateBlock (rp : ReplacementPolicy R) (cache : Cache R) (ref : BlkRef) :
    Frame (some ref) cache (cache.invalidateBlock rp ref) := by
  -- as far as the blocks go, an invalidation writes an invalid block
  have written := setBlk cache ref {} (fun valid => absurd valid (by decide))
  cases ref with
  | temp => exact written
  | tag place =>
    exact ⟨⟨written.tags.others, fun outside => absurd rfl (outside place), written.tags.own⟩,
      ⟨rfl, rfl⟩, written.line, .of_eq rfl⟩

theorem doWritebacks (ref : BlkRef) (cache : Cache R) (above : Packet → Bool)
    (writebacks : List Packet) (own : ∀ pkt ∈ writebacks, (cache.getBlk ref).valid = true ∧
      pkt.rawLine = (cache.getBlk ref).key) :
    Frame (some ref) cache (cache.doWritebacks above writebacks) := by
  refine ⟨.refl _ _, ⟨rfl, rfl⟩, fun used named valid => ?_, ⟨_, rfl, fun pkt mem => ?_⟩⟩
  · cases used <;> exact ⟨valid, rfl⟩
  · obtain ⟨pushed, mem, kept⟩ := List.mem_filterMap.mp mem
    have same : pkt.rawLine = pushed.rawLine := by
      split at kept
      · split at kept <;> cases kept
        rfl
      · cases kept
        rfl
    obtain ⟨valid, line⟩ := own pushed mem
    exact ⟨ref, rfl, valid, same.trans line⟩

end Frame

namespace Cache

variable {rp : ReplacementPolicy R} {cfg : CacheParams}

/-! ### Satisfying a request -/

variable {cache after : Cache R} {pkt out resp : Packet} {ref : Option BlkRef} {mshr : Mshr}
  {above : Packet → Bool} {sent : List Packet}

theorem satisfyBase_frame {ref : BlkRef}
    (ret : cache.satisfyBase rp pkt ref = .ok (after, out)) : Frame (some ref) cache after := by
  unfold satisfyBase at ret
  dsimp only at ret
  split_ifs at ret <;> cases ret
  all_goals first
    | exact .refl _ _
    | exact .invalidateBlock rp cache ref
    | exact .setBlk cache ref _ fun valid => ⟨valid, rfl⟩

variable {deferred down : Bool}

theorem grantRead_frame {ref : BlkRef}
    (ret : cache.grantRead cfg pkt ref deferred down = .ok (after, out)) :
    Frame (some ref) cache after := by
  have clean : Frame (some ref) cache
      (cache.setBlk ref { cache.getBlk ref with dirty := false }) :=
    .setBlk cache ref _ fun valid => ⟨valid, rfl⟩
  unfold grantRead at ret
  dsimp only at ret
  split_ifs at ret <;> cases ret
  all_goals first | exact clean | exact .refl _ _

theorem satisfyRequest_frame {ref : BlkRef}
    (ret : cache.satisfyRequest rp cfg pkt ref deferred down = .ok (after, out)) :
    Frame (some ref) cache after := by
  unfold satisfyRequest at ret
  split at ret
  · cases ret
  · obtain ⟨⟨_, _⟩, base, ret⟩ := bind_ok_iff.mp ret
    have first := satisfyBase_frame base
    dsimp only at ret
    split at ret
    · split at ret
      · cases ret
      · exact first.trans (grantRead_frame ret)
    · cases ret
      exact first

variable (rp cfg) in
theorem maintainClusivity_frame (cache : Cache R) (fromCache : Bool) (ref : BlkRef) :
    Frame (some ref) cache (cache.maintainClusivity rp cfg fromCache ref) := by
  unfold maintainClusivity
  dsimp only
  split
  · exact .invalidateBlock rp cache ref
  · exact .refl _ _

/-! ### Servicing targets -/

variable (rp cfg) in
theorem replaySnoop_frame (above : Packet → Bool) (cache : Cache R) (pkt : Packet)
    (ref : BlkRef) : Frame (some ref) cache (cache.replaySnoop rp cfg above pkt ref) := by
  have ended (invalidates : Bool) (middle : Cache R) (so_far : Frame (some ref) cache middle) :
      Frame (some ref) cache
        (if invalidates then middle.invalidateBlock rp ref else middle) := by
    split
    · exact so_far.trans (.invalidateBlock rp middle ref)
    · exact so_far
  unfold replaySnoop
  dsimp only
  split
  next => exact .refl _ _
  next held =>
    have held : (cache.getBlk ref).valid = true := by simpa using held
    split
    · refine ended _ _ ?_
      split
      · have cleaned : Frame (some ref) cache
            (cache.setBlk ref { cache.getBlk ref with dirty := false, writable := false }) :=
          .setBlk cache ref _ fun valid => ⟨valid, rfl⟩
        refine cleaned.trans (.doWritebacks ref _ _ _ ?_)
        -- the written packet carries the line the block still has
        intro _ mem
        obtain rfl := List.mem_singleton.mp mem
        cases ref with
        | temp => exact ⟨held, rfl⟩
        | tag =>
          simp only [getBlk, Cache.setBlk, Tags.setBlk_same]
          exact ⟨held, rfl⟩
      · exact .refl _ _
    · split
      · exact .refl _ _
      · refine ended _ _ ?_
        split
        · exact .setBlk cache ref _ fun valid => ⟨valid, rfl⟩
        · exact .refl _ _

theorem serviceRequest_frame
    (ret : cache.serviceRequest rp cfg mshr resp ref pkt = .ok (after, out)) :
    Frame ref cache after := by
  cases serviceRequest_cases rp cfg ret with
  | satisfied _ _ _ _ request =>
    exact satisfyRequest_frame request
  | failed => exact .refl _ _
  | copied => exact .refl _ _
  | invalidated used => exact .invalidateBlock rp cache used

theorem serviceTarget_frame {t : Target}
    (ret : cache.serviceTarget rp cfg above mshr resp ref t = .ok (after, sent)) :
    Frame ref cache after := by
  cases serviceTarget_cases ret with
  | unused => exact .refl _ _
  | prefetched used => exact .setBlk cache used _ fun valid => ⟨valid, rfl⟩
  | snooped used => exact replaySnoop_frame rp cfg above cache t.pkt used
  | claimed used => exact .setBlk cache used _ fun valid => ⟨valid, rfl⟩
  | answered _ _ _ _ _ _ request =>
    exact serviceRequest_frame request

/-- Over the whole loop: each target works on the block the one before left. -/
theorem serviceTargets_frame {targets : List Target} (cache : Cache R) (sent : List Packet)
    (ret : cache.serviceTargets rp cfg above mshr resp ref targets = .ok (after, sent)) :
    Frame ref cache after := by
  induction targets generalizing cache sent with
  | nil =>
    cases ret
    exact .refl _ _
  | cons _ _ ih =>
    obtain ⟨⟨middle, _⟩, serviced, ret⟩ := bind_ok_iff.mp ret
    obtain ⟨⟨_, more⟩, looped, ret⟩ := bind_ok_iff.mp ret
    cases ret
    exact (serviceTarget_frame serviced).trans (ih middle more looped)

theorem settleBlock_frame (mshr : Mshr) (resp : Packet) (hasFromCache : Bool) (cache : Cache R)
    (ref : BlkRef) :
    Frame (some ref) cache (cache.settleBlock rp cfg mshr resp hasFromCache ref) := by
  have kept := maintainClusivity_frame rp cfg cache hasFromCache ref
  unfold settleBlock
  dsimp only
  split_ifs
  · exact kept
  · exact kept.trans (.invalidateBlock rp _ ref)
  · exact kept.trans (.setBlk _ ref _ fun valid => ⟨valid, rfl⟩)
  · exact kept

theorem serviceMSHRTargets_frame {ready : TargetList}
    (ret : cache.serviceMSHRTargets rp cfg above mshr resp ref ready =
      .ok (after, sent)) : Frame ref cache after := by
  obtain ⟨⟨middle, up⟩, serviced, ret⟩ := bind_ok_iff.mp ret
  have looped := serviceTargets_frame cache up serviced
  dsimp only at ret
  split at ret <;> cases ret
  · exact looped.trans (settleBlock_frame mshr resp _ middle _)
  · exact looped

/-! ### The rest of a response -/

/-- The MSHR's flags are not rebuilt by the promotions, and the cache changes at
its block only. -/
theorem promoteStage_frame {promoted : Mshr}
    (ret : promoteStage mshr pkt ref cache = .ok (promoted, after)) : Frame ref cache after := by
  obtain ⟨⟨_, _⟩, first, ret⟩ := bind_ok_iff.mp ret
  obtain ⟨_, _, ret⟩ := bind_ok_iff.mp ret
  cases ret
  unfold readableStage at first
  split at first
  next used usable =>
    obtain rfl := (Option.filter_eq_some_iff.mp usable).1
    obtain ⟨_, _, same⟩ := map_ok_iff.mp first
    cases same
    exact .setBlk cache used _ fun valid => ⟨valid, rfl⟩
  next =>
    cases first
    exact .refl _ _

section Retire

variable (id : Nat) (mshr : Mshr) (ref : Option BlkRef) (cache : Cache R)

theorem retireStage_tags : TagsKept ref cache.tags (retireStage id mshr ref cache).tags := by
  have unread (other : Cache R) (ref : BlkRef) : Frame (some ref) other
      (other.setBlk ref { other.getBlk ref with readable := false }) :=
    .setBlk other ref _ fun valid => ⟨valid, rfl⟩
  unfold retireStage
  split
  · dsimp only
    split
    · exact (unread (cache.setMshr id _) _).tags
    · exact .refl _ _
  · exact .refl _ _

@[simp] theorem getBlk_setBlk (cache : Cache R) (ref : BlkRef) (blk : CacheBlk) :
    (cache.setBlk ref blk).getBlk ref = blk := by
  cases ref with
  | temp => rfl
  | tag => exact Tags.setBlk_same _ _ _

@[simp] theorem setBlk_writeBuffer (cache : Cache R) (ref : BlkRef) (blk : CacheBlk) :
    (cache.setBlk ref blk).writeBuffer = cache.writeBuffer := by
  cases ref <;> rfl

@[simp] theorem setBlk_mshrs (cache : Cache R) (ref : BlkRef) (blk : CacheBlk) :
    (cache.setBlk ref blk).mshrs = cache.mshrs := by
  cases ref <;> rfl

@[simp] theorem setBlk_order (cache : Cache R) (ref : BlkRef) (blk : CacheBlk) :
    (cache.setBlk ref blk).order = cache.order := by
  cases ref <;> rfl

theorem retireStage_order : (retireStage id mshr ref cache).order = cache.order := by
  unfold retireStage
  split
  · cases ref with
    | none => rfl
    | some => exact setBlk_order _ _ _
  · rfl

theorem retireStage_mshrs :
    (retireStage id mshr ref cache).mshrs =
      match mshr.promoteDeferredTargets with
      | some mshr => (cache.setMshr id { mshr with inService := false }).mshrs
      | none => (cache.removeMshr id).mshrs := by
  unfold retireStage
  cases mshr.promoteDeferredTargets with
  | none => rfl
  | some =>
    cases ref with
    | none => rfl
    | some => exact setBlk_mshrs _ _ _

theorem retireStage_writes : (retireStage id mshr ref cache).writeBuffer = cache.writeBuffer := by
  unfold retireStage
  split
  · rcases ref with _ | (place | _) <;> rfl
  · rfl

theorem retireStage_line : LineStays ref cache (retireStage id mshr ref cache) := by
  intro used named valid
  subst named
  unfold retireStage at valid ⊢
  split
  next left promoted =>
    simp only [promoted] at valid
    have unread : Frame (some used) (cache.setMshr id { left with inService := false }) _ :=
      .setBlk _ used { (cache.setMshr id { left with inService := false }).getBlk used with
        readable := false } fun valid => ⟨valid, rfl⟩
    have stays := unread.line used rfl valid
    cases used <;> exact stays
  next removed =>
    simp only [removed] at valid
    cases used <;> exact ⟨valid, rfl⟩

end Retire

variable (cfg) in
theorem evictTemp_frame (ref : Option BlkRef) (cache : Cache R) :
    Frame ref cache (evictTemp cfg ref cache).1 := by
  unfold evictTemp
  split
  next dropped =>
    simp only [Bool.and_eq_true, decide_eq_true_eq] at dropped
    refine ⟨.refl _ _, ⟨rfl, rfl⟩, fun used named valid => ?_, .of_eq rfl⟩
    rw [dropped.1] at named
    cases named
    cases valid
  next => exact .refl _ _

variable (rp cfg) in
/-- The stages of a response that is handled. -/
structure Response (above : Packet → Bool) (cache : Cache R) (id : Nat) (pkt : Packet)
    (tick : Nat) (after : Cache R) (sent : List Packet) where
  mshr : Mshr
  ref : Option BlkRef
  filled : Cache R
  writebacks : List Packet
  resp : Packet
  promoted : Mshr
  readied : Cache R
  ready : TargetList
  left : Mshr
  serviced : Cache R
  answered : cache.answered id pkt = some mshr
  fills : cache.fillStage rp cfg mshr pkt tick = .ok (ref, filled, writebacks, resp)
  promotes : promoteStage mshr resp ref filled = .ok (promoted, readied)
  extracts : promoted.extractServiceableTargets resp.cmd = some (ready, left)
  services : readied.serviceMSHRTargets rp cfg above promoted resp ref ready =
    .ok (serviced, sent)
  retires : after = (evictTemp cfg ref (retireStage id left ref serviced)).1.doWritebacks above
    (writebacks ++ (evictTemp cfg ref (retireStage id left ref serviced)).2)

theorem recvTimingResp_ok {id : Nat} {tick : Nat}
    (ret : cache.recvTimingResp rp cfg above id pkt tick = .ok (after, sent)) :
    Nonempty (Response rp cfg above cache id pkt tick after sent) := by
  unfold recvTimingResp at ret
  obtain ⟨mshr, answered, ret⟩ := bind_ok_iff.mp ret
  obtain ⟨⟨ref, filled, writebacks, resp⟩, fills, ret⟩ := bind_ok_iff.mp ret
  obtain ⟨⟨promoted, readied⟩, promotes, ret⟩ := bind_ok_iff.mp ret
  obtain ⟨⟨ready, left⟩, extracts, ret⟩ := bind_ok_iff.mp ret
  obtain ⟨⟨serviced, _⟩, services, ret⟩ := bind_ok_iff.mp ret
  cases ret
  exact ⟨⟨mshr, ref, filled, writebacks, resp, promoted, readied, ready, left, serviced,
    orFail_ok_iff.mp answered, fills, promotes, orFail_ok_iff.mp extracts, services,
    rfl⟩⟩

variable {above : Packet → Bool} {cache after : Cache R} {id tick : Nat} {pkt : Packet}
  {sent : List Packet} (r : Response rp cfg above cache id pkt tick after sent)

/-- Between the fill and the retirement of the MSHR a response works on its own
block. -/
theorem Response.worked : Frame r.ref r.filled r.serviced :=
  (promoteStage_frame r.promotes).trans
    (serviceMSHRTargets_frame
       r.services)

/-- After the fill, a response changes the tags at its own block only. -/
theorem Response.tags : TagsKept r.ref r.filled.tags after.tags := by
  have retired := retireStage_tags id r.left r.ref r.serviced
  have evicted := evictTemp_frame cfg r.ref (retireStage id r.left r.ref r.serviced)
  have last : after.tags = (evictTemp cfg r.ref (retireStage id r.left r.ref r.serviced)).1.tags :=
    (congrArg Cache.tags r.retires).trans rfl
  rw [last]
  exact (r.worked.tags.trans retired).trans evicted.tags

/-- The MSHRs change only as the answered one is retired. -/
theorem Response.mshrs (same : r.filled.mshrs = cache.mshrs) :
    after.mshrs = match r.left.promoteDeferredTargets with
      | some mshr => (cache.setMshr id { mshr with inService := false }).mshrs
      | none => (cache.removeMshr id).mshrs := by
  have evicted := evictTemp_frame cfg r.ref (retireStage id r.left r.ref r.serviced)
  have list : r.serviced.mshrs = cache.mshrs := r.worked.queue.mshrs.trans same
  have retired := retireStage_mshrs id r.left r.ref r.serviced
  refine (congrArg Cache.mshrs r.retires).trans (evicted.queue.mshrs.trans (retired.trans ?_))
  simp only [setMshr, removeMshr, list]

theorem Response.order : after.order = r.filled.order := by
  have evicted := evictTemp_frame cfg r.ref (retireStage id r.left r.ref r.serviced)
  have retired := retireStage_order id r.left r.ref r.serviced
  exact (congrArg Cache.order r.retires).trans
    (evicted.queue.order.trans (retired.trans r.worked.queue.order))

/-! ### Fills -/

section Fill

variable (rp cfg) in
/-- The outcomes of `allocateBlock`. Asking the policy for a victim changes no
block. -/
inductive AllocateCase (cache : Cache R) (key : LineKey) (tick : Nat) :
    Option Place → Cache R → List Packet → Prop where
  | refused (tags : Tags R) (same : tags.blk = cache.tags.blk) :
    AllocateCase cache key tick none { cache with tags } []
  | evicted (place : Place) (tags : Tags R) (same : tags.blk = cache.tags.blk)
    (set : place.set = rp.setOf key.blkAddr) (way : place.way < rp.assoc)
    (valid : (cache.tags.blk place).valid = true)
    (idle : cache.findMshr (cache.tags.blk place).key = none) :
    AllocateCase cache key tick (some place)
      { cache with tags := (tags.invalidate rp place).insertBlock rp key place tick }
      [evictionPacket cfg (cache.tags.blk place)]
  | unused (place : Place) (tags : Tags R) (same : tags.blk = cache.tags.blk)
    (set : place.set = rp.setOf key.blkAddr) (way : place.way < rp.assoc)
    (invalid : (cache.tags.blk place).valid = false) :
    AllocateCase cache key tick (some place)
      { cache with tags := tags.insertBlock rp key place tick } []

variable {cache : Cache R} {key : LineKey} {tick : Nat} {writebacks : List Packet}

theorem allocateBlock_cases {found : Option Place}
    (ret : cache.allocateBlock rp cfg key tick = .ok (found, after, writebacks)) :
    AllocateCase rp cfg cache key tick found after writebacks := by
  have way : (cache.tags.findVictim rp key.blkAddr).1.way < rp.assoc := rp.victim_lt _ _
  unfold allocateBlock at ret
  dsimp only at ret
  split at ret
  next valid =>
    split at ret
    · split at ret <;> cases ret
      exact .refused _ rfl
    next idle =>
      cases ret
      exact .evicted _ _ rfl rfl way valid idle
  next invalid =>
    cases ret
    exact .unused _ _ rfl rfl way (Bool.eq_false_iff.mpr invalid)

theorem insertBlock_blk (tags : Tags R) (key : LineKey) (place other : Place) (tick : Nat) :
    (tags.insertBlock rp key place tick).blk other =
      if other = place then .insert key else tags.blk other := by
  by_cases same : other = place
  · simp [Tags.insertBlock, Tags.setBlk, same]
  · simp [Tags.insertBlock, Tags.setBlk, same]

theorem allocateBlock_some {room : Cache R} {place : Place}
    (ret : cache.allocateBlock rp cfg key tick = .ok (some place, room, writebacks)) :
    room.tags.blk place = .insert key := by
  cases allocateBlock_cases ret with
  | evicted _ tags | unused _ tags => rw [insertBlock_blk, if_pos rfl]

variable {place : Option Place}

theorem allocateBlock_queue
    (ret : cache.allocateBlock rp cfg key tick = .ok (place, after, writebacks)) :
    QueueKept cache after := by
  cases allocateBlock_cases ret <;>
    exact ⟨rfl, rfl⟩

theorem allocateBlock_writes
    (ret : cache.allocateBlock rp cfg key tick = .ok (place, after, writebacks)) :
    after.writeBuffer = cache.writeBuffer := by
  cases allocateBlock_cases ret <;> rfl

variable (rp cfg) in
/-- The ways a fill can end: the line is there, a block is allocated for it, or
the temporary block takes it. -/
inductive FillCase (cache : Cache R) (pkt : Packet) (tick : Nat) :
    Option Place → Bool → Filled R → Prop where
  | present (place : Place) (allocate : Bool) :
    FillCase cache pkt tick (some place) allocate
      ⟨.tag place, cache.setBlk (.tag place) (fillBits pkt (cache.getBlk (.tag place))), [], pkt⟩
  | allocated (place : Place) (room : Cache R) (writebacks : List Packet)
    (data : fillDataless pkt = false)
    (took : cache.allocateBlock rp cfg (pkt.line cfg.blkSize) tick =
      .ok (some place, room, writebacks)) :
    FillCase cache pkt tick none true
      ⟨.tag place, room.setBlk (.tag place) (fillBits pkt (room.getBlk (.tag place))),
        writebacks, pkt⟩
  | temporary (allocate : Bool) (room : Cache R) (writebacks : List Packet)
    (data : fillDataless pkt = false) (enabled : cfg.nofillEn = true)
    (refused : (allocate = false ∧ room = cache ∧ writebacks = []) ∨
      (allocate = true ∧ cache.allocateBlock rp cfg (pkt.line cfg.blkSize) tick =
        .ok (none, room, writebacks))) :
    FillCase cache pkt tick none allocate
      ⟨.temp, { room with tempBlock := fillBits pkt (.insert (pkt.line cfg.blkSize)) },
        writebacks, { pkt with noFillLower := true }⟩

theorem handleFill_cases {blk : Option Place} {allocate : Bool} {filled : Filled R}
    (ret : cache.handleFill rp cfg pkt blk allocate tick = .ok filled) :
    FillCase rp cfg cache pkt tick blk allocate filled := by
  unfold handleFill at ret
  dsimp only at ret
  split at ret
  · cases ret
  · cases blk with
    -- the block is there, is not asked for, or is refused; the last two need the temporary one
    | some place =>
      cases ret
      exact .present place allocate
    | none =>
      dsimp only at ret
      split at ret
      · cases ret
      next data =>
        have data : fillDataless pkt = false := by simpa using data
        cases allocate with
        | false =>
          cases enabled : cfg.nofillEn with
          | false => simp [enabled, bind, Except.bind] at ret
          | true =>
            simp only [enabled, bind, Except.bind, Bool.not_true, Bool.false_eq_true,
              ↓reduceIte] at ret
            cases ret
            exact .temporary false cache [] data enabled (.inl ⟨rfl, rfl, rfl⟩)
        | true =>
          obtain ⟨⟨place, room, writebacks⟩, took, ret⟩ := bind_ok_iff.mp ret
          cases place with
          | some place =>
            cases ret
            exact .allocated place room writebacks data took
          | none =>
            cases enabled : cfg.nofillEn with
            | false => simp [enabled] at ret
            | true =>
              simp only [enabled, Bool.not_true, Bool.false_eq_true, ↓reduceIte] at ret
              cases ret
              exact .temporary true room writebacks data enabled (.inr ⟨rfl, took⟩)

/-- A fill that allocates no new block uses the one that holds the line, or else
the temporary block, and keeps the tags. -/
theorem fillStage_unallocated {filled : Cache R} (fills : isFill mshr pkt = true)
    (refused : cache.tags.findBlock rp (pkt.line cfg.blkSize) = none →
      cache.allocates cfg mshr pkt = false)
    (ret : cache.fillStage rp cfg mshr pkt tick = .ok (ref, filled, writebacks, resp)) :
    TagsKept ref cache.tags filled.tags ∧
      ref = some (((cache.tags.findBlock rp (pkt.line cfg.blkSize)).map
        BlkRef.tag).getD .temp) := by
  cases fillStage_cases ret with
  | passed other => simp [fills] at other
  | filled _ _ _ fill =>
    have outcome := handleFill_cases fill
    generalize cache.tags.findBlock rp (pkt.line cfg.blkSize) = found at *
    generalize cache.allocates cfg mshr pkt = allocate at *
    cases outcome with
    | present place =>
      have written : Frame (some (.tag place)) cache
          (cache.setBlk (.tag place) (fillBits pkt (cache.getBlk (.tag place)))) :=
        .setBlk cache (.tag place) _ fun valid => ⟨valid, rfl⟩
      exact ⟨written.tags, rfl⟩
    | allocated => cases refused rfl
    | temporary _ _ _ _ _ reason =>
      -- the tags are not asked for a block
      refine ⟨?_, rfl⟩
      rcases reason with ⟨_, rfl, _⟩ | ⟨allocates, _⟩
      · exact .refl _ _
      · rw [refused rfl] at allocates
        cases allocates

end Fill

end Cache

end RasCache.Mem
