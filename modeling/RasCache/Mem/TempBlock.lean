import RasCache.Mem.Assertions

/-!
# The temporary block of a cache without no-fill

`handleFill` stops the simulation when it needs the temporary block and no-fill
is not enabled. This module shows that no other code reaches that panic, and
states exactly which responses do.
-/
namespace RasCache.Mem.Cache

open Outcomes

variable {R : Type} (rp : ReplacementPolicy R) (cfg : CacheParams)

/-- The computation does not end in the panic on the temporary block. -/
abbrev Quiet {α : Type} (x : Except Failure α) : Prop := Avoids Failure.tempBlockWithoutNofill x

/-- Only a response can need the temporary block. -/
theorem handle_quiet (cache : Cache R) {e : CacheEvent}
    (other : ∀ id pkt tick above, e ≠ .recvTimingResp id pkt tick above) :
    Quiet (cache.handle rp cfg e) := by
  refine (handle_stops cache e).avoids ?_
  rintro (asserted | panics)
  · cases asserted
  · cases panics with
    | fill id pkt tick above => exact other id pkt tick above rfl
    | miss _ _ _ _ _ _ _ _ panics =>
      rcases noFillPanic_cases cfg panics with why | why <;> cases why

/-! ### The responses that need it -/

/-- The victim the policy offers for the address waits for an upgrade or a clean
operation, so `handleEvictions` refuses to evict it. -/
def victimHeld (cache : Cache R) (addr : Addr) : Bool :=
  let victim := cache.tags.blk (cache.tags.findVictim rp addr).1
  victim.valid && (cache.findMshr victim.key).any fun e =>
    (!victim.writable && e.mshr.needsWritable) || isCleaning e.mshr

/-- The assertions of `handleFill` hold for a response without a block. -/
def fillable (cache : Cache R) (pkt : Packet) : Bool :=
  !cache.fillMisfit cfg pkt && !fillDataless pkt

theorem allocateBlock_none_iff (cache : Cache R) (key : LineKey) (tick : Nat) :
    (∃ after writebacks, cache.allocateBlock rp cfg key tick =
      .ok (none, after, writebacks)) ↔ victimHeld rp cache key.blkAddr = true := by
  have same : (cache.tags.findVictim rp key.blkAddr).2.blk = cache.tags.blk := rfl
  have queue : ∀ tags : Tags R, ∀ line,
      ({ cache with tags } : Cache R).findMshr line = cache.findMshr line := fun _ _ => rfl
  simp only [allocateBlock, victimHeld, same, queue]
  split
  next valid =>
    cases found : cache.findMshr
      (cache.tags.blk (cache.tags.findVictim rp key.blkAddr).1).key with
    | none => simp
    | some e =>
      simp only [valid, Option.any_some, Bool.true_and]
      split
      next held => simp [held]
      next free => simp [free]
  next invalid => simp [invalid]

/-- `handleFill` panics exactly when no block is there and none is allocated. -/
theorem handleFill_panics_iff (cache : Cache R) (pkt : Packet) (blk : Option Place)
    (allocate : Bool) (tick : Nat) :
    cache.handleFill rp cfg pkt blk allocate tick = .error .tempBlockWithoutNofill ↔
      cfg.nofillEn = false ∧ fillable cfg cache pkt = true ∧ blk = none ∧
        (allocate = false ∨ victimHeld rp cache (pkt.line cfg.blkSize).blkAddr = true) := by
  have quiet : Quiet (cache.allocateBlock rp cfg (pkt.line cfg.blkSize) tick) :=
    (allocateBlock_asserts cache _ tick).avoids (by decide)
  have blocked := allocateBlock_none_iff rp cfg cache (pkt.line cfg.blkSize) tick
  unfold handleFill fillable
  dsimp only
  -- a block is allocated only for a fill that fits, brings data and finds none
  cases misfit : cache.fillMisfit cfg pkt with
  | true => simp
  | false =>
    cases blk with
    | some => simp
    | none =>
      cases dataless : fillDataless pkt with
      | true => simp
      | false =>
        simp only [Bool.false_eq_true, ↓reduceIte, Bool.not_false, Bool.and_self, true_and]
        cases allocate with
        | false => cases cfg.nofillEn <;> simp [bind, Except.bind]
        | true =>
          cases allocated : cache.allocateBlock rp cfg (pkt.line cfg.blkSize) tick with
          | error failure =>
            have other : failure ≠ .tempBlockWithoutNofill := fun h =>
              quiet (h ▸ allocated)
            have free : ¬ victimHeld rp cache (pkt.line cfg.blkSize).blkAddr = true := by
              rw [← blocked, allocated]
              simp
            simp [bind, Except.bind, other, free]
          | ok result =>
            obtain ⟨place, after, writebacks⟩ := result
            rw [allocated] at blocked
            cases place with
            -- a refused allocation ends at the temporary block, as a fill that asks for none does
            | none =>
              have held := blocked.mp ⟨after, writebacks, rfl⟩
              cases cfg.nofillEn <;> simp [bind, Except.bind, held]
            | some =>
              have free : ¬ victimHeld rp cache (pkt.line cfg.blkSize).blkAddr = true := by
                rw [← blocked]
                simp
              simp [bind, Except.bind, free]

/-! ### Whole runs -/

/-- The condition on the state before a response: a fill without a block finds
the allocation allowed and a victim that is free. -/
def RoomForFill (cache : Cache R) : CacheEvent → Prop
  | .recvTimingResp id pkt _ _ =>
    cfg.nofillEn = false → ∀ mshr, cache.answered id pkt = some mshr →
      isFill mshr pkt = true → ¬ (cfg.cacheLevel = 2 ∧ pkt.noFillLower = true) →
      fillable cfg cache pkt = true →
      cache.tags.findBlock rp (pkt.line cfg.blkSize) = none →
      cache.allocates cfg mshr pkt = true ∧
        victimHeld rp cache (pkt.line cfg.blkSize).blkAddr = false
  | _ => True

theorem fillStage_panics_iff (cache : Cache R) (mshr : Mshr) (pkt : Packet) (tick : Nat) :
    cache.fillStage rp cfg mshr pkt tick = .error .tempBlockWithoutNofill ↔
      isFill mshr pkt = true ∧ ¬ (cfg.cacheLevel = 2 ∧ pkt.noFillLower = true) ∧
        cache.handleFill rp cfg pkt (cache.tags.findBlock rp (pkt.line cfg.blkSize))
          (cache.allocates cfg mshr pkt) tick = .error .tempBlockWithoutNofill := by
  unfold fillStage
  dsimp only
  cases isFill mshr pkt with
  | false => simp
  | true =>
    by_cases last : cfg.cacheLevel = 2 ∧ pkt.noFillLower = true
    · simp [last.1, last.2]
    · have going : (decide (cfg.cacheLevel = 2) && pkt.noFillLower) = false := by
        simpa using last
      simp only [going, ↓reduceIte, Bool.false_eq_true, bind_error_iff, last, not_false_eq_true,
        true_and]
      simp

theorem recvTimingResp_panics_iff (above : Packet → Bool) (cache : Cache R) (id : Nat)
    (pkt : Packet) (tick : Nat) :
    cache.recvTimingResp rp cfg above id pkt tick = .error .tempBlockWithoutNofill ↔
      ∃ mshr, cache.answered id pkt = some mshr ∧
        cache.fillStage rp cfg mshr pkt tick = .error .tempBlockWithoutNofill := by
  unfold recvTimingResp
  cases found : cache.answered id pkt with
  | none => simp [orFail, bind, Except.bind]
  | some mshr =>
    change (cache.fillStage rp cfg mshr pkt tick >>= _) = _ ↔ _
    rw [bind_error_iff]
    constructor
    · rintro (failed | ⟨⟨ref, filled, writebacks, resp⟩, _, failed⟩)
      · exact ⟨mshr, rfl, failed⟩
      · -- behind the fill no stage fails in this way
        cases behindFill_asserts above filled mshr id resp ref writebacks _ failed
    · rintro ⟨other, same, failed⟩
      cases same
      exact .inl failed

theorem handle_panics_iff (cache : Cache R) (e : CacheEvent) :
    cache.handle rp cfg e ≠ .error .tempBlockWithoutNofill ↔ RoomForFill rp cfg cache e := by
  cases e with
  | recvTimingResp _ pkt =>
    simp only [handle, ne_eq, map_error_iff, recvTimingResp_panics_iff, fillStage_panics_iff,
      handleFill_panics_iff, RoomForFill]
    constructor
    · intro never nofill mshr found fill level fit missing
      by_contra full
      refine never ⟨mshr, found, fill, level, nofill, fit, missing, ?_⟩
      by_cases allocates : cache.allocates cfg mshr pkt = true
      · exact .inr (by_contra fun free => full ⟨allocates, by simpa using free⟩)
      · exact .inl (by simpa using allocates)
    · rintro room ⟨mshr, found, fill, level, nofill, fit, missing, denied⟩
      obtain ⟨allocates, free⟩ := room nofill mshr found fill level fit missing
      rcases denied with denied | held
      · exact absurd (denied.symm.trans allocates) (by decide)
      · exact absurd (free.symm.trans held) (by decide)
  | _ =>
    refine iff_of_true (handle_quiet rp cfg cache fun id pkt tick above same => ?_) trivial
    cases same

/-- In every run of the cache, no step panics on the temporary block exactly when
every fill finds room in the state it meets. -/
theorem tempBlock_panic_free_iff (cache : Cache R) (events : List CacheEvent) :
    Runs.Along (step rp cfg) (fun cache e => cache.handle rp cfg e ≠ .error .tempBlockWithoutNofill)
        cache events ↔ Runs.Along (step rp cfg) (RoomForFill rp cfg) cache events :=
  Runs.along_congr (handle_panics_iff rp cfg) cache events

/-- An L1 that does not protect against speculative fills. -/
def unprotected : CacheParams :=
  { blkSize := 64, cacheLevel := 1, nofillEn := false, pfAckEn := false }

def demandReq : Request := { flags := { demandFetch := true } }

/-- A load brings in a shared line, a store to it waits for the upgrade, and a
load of another line comes back. -/
def fillDuringUpgrade : List CacheEvent :=
  [.recvTimingReq (.ofRequest demandReq .readReq 0 8) 0 fun _ => false,
   .sendMSHRQueuePacket 0 false fun _ => false,
   .recvTimingResp 0 { Packet.ofRequest demandReq .readResp 0 64 with hasSharers := true } 1
     fun _ => false,
   .recvTimingReq (.ofRequest demandReq .writeReq 0 8) 2 fun _ => false,
   .recvTimingReq (.ofRequest demandReq .readReq 64 8) 3 fun _ => false,
   .sendMSHRQueuePacket 2 false fun _ => false,
   .recvTimingResp 2 (.ofRequest demandReq .readResp 64 64) 4 fun _ => false]

/-- The only victim waits for its upgrade, so the second load has nowhere to go
but the temporary block. -/
theorem fillDuringUpgrade_panics : ¬ Runs.Along (step oneBlock unprotected)
      (fun cache e => cache.handle oneBlock unprotected e ≠ .error .tempBlockWithoutNofill)
      (empty ()) fillDuringUpgrade := by
  intro quiet
  have last := quiet.2 _ rfl |>.2 _ rfl |>.2 _ rfl |>.2 _ rfl |>.2 _ rfl |>.2 _ rfl |>.1
  exact last rfl

end RasCache.Mem.Cache
