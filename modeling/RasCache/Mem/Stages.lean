import RasCache.Foundation.Outcomes
import RasCache.Mem.Cache

/-!
# What the stages of an event can do

Inversions of the parts `recvTimingResp`, `access` and `recvTimingSnoopReq` are
made of. Each says once in which ways the stage can return, and with what; what a
stage leaves alone is then a case analysis.
-/
namespace RasCache.Mem.Cache

open Outcomes

variable {R : Type} (rp : ReplacementPolicy R) (cfg : CacheParams)

theorem orFail_ok_iff {α : Type} {x : Option α} {a : α} : orFail x = .ok a ↔ x = some a := by
  cases x <;> simp [orFail]

/-! ### Targets -/

/-- How a request is answered: from the block, as a store conditional that failed,
or from the response, which may invalidate the block. -/
inductive AnswerCase (mshr : Mshr) (resp : Packet) (cache : Cache R) (pkt : Packet) :
    Option BlkRef → Cache R → Packet → Prop where
  | satisfied (ref : BlkRef) (after : Cache R) (out : Packet) (invalidate : Bool)
    (request : cache.satisfyRequest rp cfg pkt ref true mshr.postDowngrade =
      .ok (after, out)) :
    AnswerCase mshr resp cache pkt (some ref) after
      (respond { out with noFillLower := out.noFillLower || resp.noFillLower } invalidate)
  | failed (ref : Option BlkRef) (invalidate : Bool) :
    AnswerCase mshr resp cache pkt ref cache (respond pkt invalidate)
  | copied (ref : Option BlkRef) (data : Option UInt8) (invalidate : Bool) :
    AnswerCase mshr resp cache pkt ref cache
      (respond { pkt.copyResponderFlags resp with data } invalidate)
  | invalidated (ref : BlkRef) (data : Option UInt8) (invalidate : Bool) :
    AnswerCase mshr resp cache pkt (some ref) (cache.invalidateBlock rp ref)
      (respond { pkt.copyResponderFlags resp with data } invalidate)

variable {mshr : Mshr} {resp pkt : Packet} {cache after : Cache R} {ref : Option BlkRef}

theorem serviceRequest_cases {out : Packet}
    (ret : cache.serviceRequest rp cfg mshr resp ref pkt = .ok (after, out)) :
    AnswerCase rp cfg mshr resp cache pkt ref after out := by
  unfold serviceRequest at ret
  dsimp only at ret
  split at ret
  next used usable =>
    obtain rfl := (Option.filter_eq_some_iff.mp usable).1
    obtain ⟨⟨_, answer⟩, request, ret⟩ := bind_ok_iff.mp ret
    dsimp only at ret
    split at ret <;> cases ret
    exact .satisfied used after answer _ request
  next =>
    split at ret
    · split at ret <;> cases ret
      exact .failed ref _
    · split at ret <;> cases ret
      split
      next used usable =>
        obtain rfl := (Option.filter_eq_some_iff.mp usable).1
        exact .invalidated used _ _
      next => exact .copied ref _ _

/-- What is done for one target. A target that is not used is one of a prefetcher or
a snoop without a block, or a prefetch, which gets no answer. -/
inductive ServiceCase (above : Packet → Bool) (mshr : Mshr) (resp : Packet) (cache : Cache R)
    (t : Target) : Option BlkRef → Cache R → List Packet → Prop where
  | unused (ref : Option BlkRef)
    (silent : t.source = .fromCPU → t.pkt.cmd = .hardPFReq ∨ t.pkt.isSWPrefetch = true) :
    ServiceCase above mshr resp cache t ref cache []
  | prefetched (ref : BlkRef) (source : t.source = .fromPrefetcher) :
    ServiceCase above mshr resp cache t (some ref)
      (cache.setBlk ref { cache.getBlk ref with prefetched := true }) []
  | snooped (ref : BlkRef) (source : t.source = .fromSnoop) :
    ServiceCase above mshr resp cache t (some ref)
      (cache.replaySnoop rp cfg above t.pkt ref) []
  | claimed (ref : BlkRef) (source : t.source = .fromCPU) (soft : t.pkt.isSWPrefetch = true) :
    ServiceCase above mshr resp cache t (some ref)
      (cache.setBlk ref { cache.getBlk ref with dirty := true }) []
  | answered (ref : Option BlkRef) (after : Cache R) (out : Packet)
    (source : t.source = .fromCPU) (demand : t.pkt.cmd ≠ .hardPFReq)
    (wanted : t.pkt.isSWPrefetch = false)
    (request : cache.serviceRequest rp cfg mshr resp ref t.pkt = .ok (after, out)) :
    ServiceCase above mshr resp cache t ref after [out]

variable {writebacks : List Packet} {above : Packet → Bool}

variable {rp cfg} in
theorem serviceTarget_cases {t : Target} {sent : List Packet}
    (ret : cache.serviceTarget rp cfg above mshr resp ref t = .ok (after, sent)) :
    ServiceCase rp cfg above mshr resp cache t ref after sent := by
  unfold serviceTarget at ret
  split at ret
  next source =>
    split at ret <;> cases ret
    · exact .prefetched _ source
    · exact .unused none fun cpu => by simp [source] at cpu
  next source =>
    split at ret <;> cases ret
    · exact .snooped _ source
    · exact .unused none fun cpu => by simp [source] at cpu
  next source =>
    split at ret
    next hard =>
      cases ret
      exact .unused ref fun _ => .inl hard
    next demand =>
      split at ret
      next soft =>
        split at ret
        · split at ret <;> cases ret
          exact .claimed _ source soft
        · cases ret
          exact .unused ref fun _ => .inr soft
      next wanted =>
        split at ret
        · cases ret
        · obtain ⟨⟨_, out⟩, request, same⟩ := map_ok_iff.mp ret
          cases same
          exact .answered ref after out source demand (by simpa using wanted) request

/-! ### Blocks -/

/-- A response fills the block of its line, or passes with the block that is there. -/
inductive StageCase (cache : Cache R) (mshr : Mshr) (pkt : Packet) (tick : Nat) :
    Option BlkRef → Cache R → List Packet → Packet → Prop where
  | filled (out : Filled R) (fills : isFill mshr pkt = true)
    (level : cfg.cacheLevel = 2 → pkt.noFillLower = false)
    (fill : cache.handleFill rp cfg pkt
      (cache.tags.findBlock rp (pkt.line cfg.blkSize)) (cache.allocates cfg mshr pkt)
      tick = .ok out) :
    StageCase cache mshr pkt tick (some out.ref) out.cache out.writebacks out.pkt
  | passed (other : isFill mshr pkt = false) :
    StageCase cache mshr pkt tick
      ((cache.tags.findBlock rp (pkt.line cfg.blkSize)).map .tag) cache [] pkt

variable {tick : Nat}

variable {rp cfg} in
theorem fillStage_cases {filled : Cache R}
    (ret : cache.fillStage rp cfg mshr pkt tick = .ok (ref, filled, writebacks, resp)) :
    StageCase rp cfg cache mshr pkt tick ref filled writebacks resp := by
  unfold fillStage at ret
  dsimp only at ret
  split at ret
  next fills =>
    split at ret
    · cases ret
    next level =>
      obtain ⟨out, fill, ret⟩ := bind_ok_iff.mp ret
      cases ret
      exact .filled out fills (fun last => by simpa [last] using level) fill
  next other =>
    cases ret
    exact .passed (by simpa using other)

/-- The block of a writeback or a WriteClean: the one that is there, none, or a new
one. -/
inductive WriteCase (cache : Cache R) (pkt : Packet) (tick : Nat) :
    Option Place → Option Place → Cache R → List Packet → Prop where
  | present (place : Place) : WriteCase cache pkt tick (some place) (some place) cache []
  | denied : WriteCase cache pkt tick none none cache []
  | refused (room : Cache R) (writebacks : List Packet)
    (took : cache.allocateBlock rp cfg (pkt.line cfg.blkSize) tick =
      .ok (none, room, writebacks)) : WriteCase cache pkt tick none none room writebacks
  | allocated (place : Place) (room : Cache R) (writebacks : List Packet)
    (took : cache.allocateBlock rp cfg (pkt.line cfg.blkSize) tick =
      .ok (some place, room, writebacks)) :
    WriteCase cache pkt tick none (some place)
      (room.setBlk (.tag place) { room.getBlk (.tag place) with readable := true }) writebacks

variable {rp cfg} in
theorem blockForWrite_cases {place out : Option Place}
    (ret : cache.blockForWrite rp cfg pkt place tick = .ok (out, after, writebacks)) :
    WriteCase rp cfg cache pkt tick place out after writebacks := by
  unfold blockForWrite at ret
  split at ret
  next place =>
    cases ret
    exact .present place
  next =>
    split at ret
    · cases ret
      exact .denied
    · obtain ⟨⟨found, room, _⟩, took, ret⟩ := bind_ok_iff.mp ret
      cases found with
      | none =>
        cases ret
        exact .refused after writebacks took
      | some place =>
        cases ret
        exact .allocated place room writebacks took

/-! ### Snoops -/

/-- A snoop goes to the block, is left to the MSHR, or passes the MSHR first, which
may mark it. -/
inductive SnoopRoute (above : Packet → Bool) (cache : Cache R) (pkt : Packet) : Cache R → Prop where
  | alone : SnoopRoute above cache pkt
      (cache.snoopBlock rp cfg above (pkt.line cfg.blkSize) pkt)
  | skipped : SnoopRoute above cache pkt cache
  | kept (entry : MshrEntry) (result : Mshr.SnoopResult)
    (hit : cache.findMshr (pkt.line cfg.blkSize) = some entry)
    (handled : entry.mshr.handleSnoop pkt cache.order = some result) :
    SnoopRoute above cache pkt
      { cache.setMshr entry.id result.mshr with order := cache.order + 1 }
  | passed (entry : MshrEntry) (result : Mshr.SnoopResult)
    (hit : cache.findMshr (pkt.line cfg.blkSize) = some entry)
    (handled : entry.mshr.handleSnoop pkt cache.order = some result) :
    SnoopRoute above cache pkt
      (snoopBlock rp cfg above
        { cache.setMshr entry.id result.mshr with order := cache.order + 1 }
        (pkt.line cfg.blkSize) result.pkt)

variable {rp cfg} in
theorem recvTimingSnoopReq_cases (ret : cache.recvTimingSnoopReq rp cfg above pkt = .ok after) :
    SnoopRoute rp cfg above cache pkt after := by
  unfold recvTimingSnoopReq at ret
  dsimp only at ret
  split at ret
  · split at ret <;> cases ret
    exact .alone
  next entry hit =>
    split at ret
    · cases ret
      exact .skipped
    · obtain ⟨result, handled, ret⟩ := bind_ok_iff.mp ret
      rw [orFail_ok_iff] at handled
      split at ret
      · cases ret
        exact .kept entry result hit handled
      · split at ret <;> cases ret
        exact .passed entry result hit handled

end RasCache.Mem.Cache
