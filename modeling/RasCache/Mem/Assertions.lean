import RasCache.Mem.Queue

/-!
# The code that only asserts

A panic of the caches is raised in one place: `handleFill` and `fillStage` raise
those of a response, `openMiss` those of a miss. Everything else fails in an
assertion or not at all.
-/
namespace RasCache.Mem.Cache

open Outcomes

variable {R : Type} {rp : ReplacementPolicy R} {cfg : CacheParams} (cache : Cache R)
  (pkt : Packet)

/-- The computation fails in an assertion or not at all. -/
abbrev Asserts {α : Type} (x : Except Failure α) : Prop := FailsIn (fun why => why = .assertion) x

theorem asserts_orFail {α : Type} (x : Option α) : Asserts (orFail x) := by
  cases x with
  | none => exact .error rfl
  | some a => exact .ok a

theorem allocateBlock_asserts (key : LineKey) (tick : Nat) :
    Asserts (cache.allocateBlock rp cfg key tick) := by
  unfold allocateBlock
  dsimp only
  split
  · split
    · exact .ite (.ok _) (.error rfl)
    · exact .ok _
  · exact .ok _

theorem satisfyBase_asserts (ref : BlkRef) : Asserts (cache.satisfyBase rp pkt ref) := by
  unfold satisfyBase
  dsimp only
  split_ifs <;> first | exact .ok _ | exact .error rfl

theorem grantRead_asserts (ref : BlkRef) (deferred down : Bool) :
    Asserts (cache.grantRead cfg pkt ref deferred down) := by
  unfold grantRead
  dsimp only
  split_ifs <;> first | exact .ok _ | exact .error rfl

theorem satisfyRequest_asserts (ref : BlkRef) (deferred down : Bool) :
    Asserts (cache.satisfyRequest rp cfg pkt ref deferred down) := by
  unfold satisfyRequest
  refine .ite (.error rfl) (.bind ?_ fun (cache, pkt) _ => ?_)
  · exact satisfyBase_asserts cache pkt ref
  · refine .ite (.ite (.error rfl) ?_) (.ok _)
    exact grantRead_asserts cache pkt ref deferred down

theorem serviceRequest_asserts (mshr : Mshr) (resp : Packet) (cache : Cache R)
    (ref : Option BlkRef) (pkt : Packet) :
    Asserts (cache.serviceRequest rp cfg mshr resp ref pkt) := by
  unfold serviceRequest
  dsimp only
  split
  · refine .bind (satisfyRequest_asserts _ _ _ _ _) fun (cache, pkt) _ => ?_
    exact .ite (.error rfl) (.ok _)
  · refine .ite (.ite (.ok _) (.error rfl)) ?_
    exact .ite (.error rfl) (.ok _)

variable (above : Packet → Bool) (mshr : Mshr) (resp : Packet) (ref : Option BlkRef)

theorem serviceTarget_asserts (cache : Cache R) (t : Target) :
    Asserts (cache.serviceTarget rp cfg above mshr resp ref t) := by
  unfold serviceTarget
  split
  · split <;> exact .ok _
  · split <;> exact .ok _
  · refine .ite (.ok _) (.ite (.ite ?_ (.ok _)) ?_)
    · split
      · exact .ok _
      · exact .error rfl
    · refine .ite (.error rfl) (.map ?_)
      exact serviceRequest_asserts mshr resp cache ref t.pkt

theorem serviceTargets_asserts (cache : Cache R) (targets : List Target) :
    Asserts (cache.serviceTargets rp cfg above mshr resp ref targets) := by
  induction targets generalizing cache with
  | nil => exact .ok _
  | cons t _ ih =>
    refine .bind (serviceTarget_asserts above mshr resp ref cache t) ?_
    intro (cache, sent) _
    exact .bind (ih cache) fun _ _ => .ok _

theorem serviceMSHRTargets_asserts (ready : TargetList) (cache : Cache R) :
    Asserts (cache.serviceMSHRTargets rp cfg above mshr resp ref ready) := by
  refine .bind (serviceTargets_asserts above mshr resp ref cache _) ?_
  intro (cache, sent) _
  dsimp only
  split <;> exact .ok _

theorem promoteStage_asserts (mshr : Mshr) (pkt : Packet) (ref : Option BlkRef) (cache : Cache R) :
    Asserts (promoteStage mshr pkt ref cache) := by
  have readable : Asserts (readableStage mshr pkt ref cache) := by
    unfold readableStage
    split
    · exact .map (asserts_orFail _)
    · exact .ok _
  refine .bind readable fun (mshr, cache) _ => ?_
  exact .bind (.ite (asserts_orFail _) (.ok _)) fun _ _ => .ok _

theorem blockForWrite_asserts (place : Option Place)
    (tick : Nat) : Asserts (cache.blockForWrite rp cfg pkt place tick) := by
  unfold blockForWrite
  split
  · exact .ok _
  · refine .ite (.ok _) (.bind ?_ fun (place, cache, writebacks) _ => ?_)
    · exact allocateBlock_asserts cache _ tick
    · dsimp only
      split <;> exact .ok _

theorem accessBlk_asserts (place : Option Place) (tick : Nat) :
    Asserts (cache.accessBlk rp cfg pkt place tick) := by
  unfold accessBlk
  dsimp only
  refine .ite (.ite (.error rfl) (.ite (.ok _) (.ite (.ok _) ?_))) (.ite (.ok _) ?_)
  · refine .bind (blockForWrite_asserts cache pkt place tick) ?_
    intro (place, cache, writebacks) _
    dsimp only
    split <;> exact .ok _
  · split
    · exact .bind (satisfyRequest_asserts _ _ _ _ _) fun _ _ => .ok _
    · exact .ok _

theorem mergeEviction_asserts : Asserts (cache.mergeEviction cfg pkt) := by
  unfold mergeEviction
  split
  · exact .ok _
  · exact .ite (.error rfl) (.ite (.ok _) (.ok _))

theorem access_asserts (tick : Nat) : Asserts (cache.access rp cfg pkt tick) := by
  unfold access
  dsimp only
  refine .ite (.error rfl) (.ite ?_ ?_)
  · split <;> exact .ok _
  · refine .ite (.error rfl) (.ite (.ok _) (.ite ?_ ?_))
    · refine .bind (mergeEviction_asserts _ pkt) fun merged _ => ?_
      cases merged with
      | some => exact .ok _
      | none => exact accessBlk_asserts _ pkt _ tick
    · exact accessBlk_asserts _ pkt _ tick

theorem coalesce_asserts (cache : Cache R) (e : MshrEntry) (pkt : Packet) :
    Asserts (cache.coalesce cfg e pkt) := by
  unfold coalesce
  exact .ite (.error rfl) (.ite (.ok _) (.ite (.ok _) (.bind (asserts_orFail _) fun _ _ => .ok _)))

theorem sendMSHRQueuePacket_asserts (above : Packet → Bool) (cache : Cache R) (id : Nat)
    (pending : Bool) : Asserts (cache.sendMSHRQueuePacket rp cfg above id pending) := by
  refine .bind (asserts_orFail _) fun e _ => .ite (.error rfl) ?_
  exact .bind (asserts_orFail _) fun _ _ => .ok _

theorem squashPrefetch_asserts (cache : Cache R) (id : Nat) :
    Asserts (cache.squashPrefetch id) := by
  refine .bind (asserts_orFail _) fun e _ => .bind (asserts_orFail _) fun t _ => ?_
  refine .ite (.error rfl) (.bind (asserts_orFail _) fun left _ => ?_)
  cases left <;> exact .ok _

theorem recvTimingSnoopReq_asserts (above : Packet → Bool) (cache : Cache R) (pkt : Packet) :
    Asserts (cache.recvTimingSnoopReq rp cfg above pkt) := by
  unfold recvTimingSnoopReq
  dsimp only
  split
  · exact .ite (.error rfl) (.ok _)
  · refine .ite (.ok _) (.bind (asserts_orFail _) fun result _ => ?_)
    exact .ite (.ok _) (.ite (.error rfl) (.ok _))

theorem recvPfAck_asserts : Asserts (cache.recvPfAck cfg pkt) := by
  unfold recvPfAck
  refine .ite (.error rfl) ?_
  split <;> exact .ok _

/-! ### The panics -/

variable (cfg)

/-- The panics of an event. A miss panics on the packet it opens an MSHR for: the
request, or the new packet of a software prefetch. -/
inductive Panics : CacheEvent → Failure → Prop where
  | fill (id : Nat) (pkt : Packet) (tick : Nat) (above : Packet → Bool) :
    Panics (.recvTimingResp id pkt tick above) .tempBlockWithoutNofill
  | lower (id : Nat) (pkt : Packet) (tick : Nat) (above : Packet → Bool) :
    Panics (.recvTimingResp id pkt tick above) .noFillLowerAtLastLevel
  | miss (pkt : Packet) (tick : Nat) (above : Packet → Bool) (req : Packet) (order : Nat)
    (why : Failure)
    (carries : req = pkt ∨ req = Packet.ofRequest pkt.req pkt.cmd pkt.addr pkt.size)
    (stays : req.isEviction = false ∧ req.cmd ≠ .writeClean)
    (panics : noFillPanic cfg req (Mshr.allocateMissBuffer cfg.blkSize req order
      (cfg.allocOnFill req.cmd) (!cfg.nofillEn)) = some why) :
    Panics (.recvTimingReq pkt tick above) why

theorem noFillPanic_cases {pkt : Packet} {mshr : Mshr} {why : Failure}
    (panics : noFillPanic cfg pkt mshr = some why) :
    why = .noFillOpensFill ∨ why = .noFillWithoutDemand := by
  unfold noFillPanic at panics
  split at panics
  · split at panics
    · exact .inl (Option.some.inj panics).symm
    · split at panics <;> cases panics
      exact .inr rfl
  · cases panics

/-- How an event can stop the simulation. -/
def Stops (e : CacheEvent) (why : Failure) : Prop := why = .assertion ∨ Panics cfg e why

variable {cfg}

theorem Asserts.stops {α : Type} {x : Except Failure α} (asserts : Asserts x) (e : CacheEvent) :
    FailsIn (Stops cfg e) x :=
  asserts.mono fun _ => .inl

theorem openMiss_stops (cache : Cache R) {pkt req : Packet} (place : Option Place) (tick : Nat)
    (above : Packet → Bool)
    (carries : req = pkt ∨ req = Packet.ofRequest pkt.req pkt.cmd pkt.addr pkt.size) :
    FailsIn (Stops cfg (.recvTimingReq pkt tick above)) (cache.openMiss cfg req place) := by
  unfold openMiss
  dsimp only
  split
  · exact .ok _
  next stays =>
    refine .ite (.error (.inl rfl)) ?_
    split
    next why panics =>
      exact .error (.inr (.miss pkt tick above req _ why carries (by simpa using stays) panics))
    next => exact .ok _

theorem handleTimingReqMiss_stops (place : Option Place)
    (tick : Nat) (above : Packet → Bool) : FailsIn (Stops cfg (.recvTimingReq pkt tick above))
      (cache.handleTimingReqMiss cfg pkt place) := by
  unfold handleTimingReqMiss
  dsimp only
  refine .ite (.ite (.ok _) (.ite (.ok _) (.error (.inl rfl)))) (.ite ?_ ?_)
  · split
    · exact .ok _
    · exact .bind (openMiss_stops _ _ tick above (.inr rfl)) fun _ _ => .ok _
  · split
    · exact (coalesce_asserts _ _ _).stops _
    · exact openMiss_stops _ _ tick above (.inl rfl)

theorem recvTimingReq_stops (above : Packet → Bool) (cache : Cache R) (pkt : Packet) (tick : Nat) :
    FailsIn (Stops cfg (.recvTimingReq pkt tick above))
      (cache.recvTimingReq rp cfg above pkt tick) := by
  refine .bind ((access_asserts cache pkt tick).stops _) ?_
  intro found accessed
  dsimp only
  split
  · exact .ok _
  next missed =>
    -- the packet that misses is the one that came
    have same : found.pkt = pkt := access_missed (by simpa using missed) accessed
    rw [same]
    exact handleTimingReqMiss_stops _ pkt _ tick above

theorem handleFill_fails (blk : Option Place) (allocate : Bool) (tick : Nat) :
    FailsIn (fun why => why = .assertion ∨ why = .tempBlockWithoutNofill)
      (cache.handleFill rp cfg pkt blk allocate tick) := by
  unfold handleFill
  dsimp only
  refine .ite (.error (.inl rfl)) ?_
  split
  · exact .ok _
  · refine .ite (.error (.inl rfl)) (.ite (.bind ?_ ?_) ?_)
    · exact (allocateBlock_asserts cache _ tick).mono fun _ => .inl
    · intro (place, room, writebacks) _
      dsimp only
      split
      · exact .ok _
      · exact .ite (.error (.inr rfl)) (.ok _)
    · exact .ite (.error (.inr rfl)) (.ok _)

theorem fillStage_stops (cache : Cache R) (mshr : Mshr) (id : Nat) (pkt : Packet) (tick : Nat)
    (above : Packet → Bool) : FailsIn (Stops cfg (.recvTimingResp id pkt tick above))
      (cache.fillStage rp cfg mshr pkt tick) := by
  unfold fillStage
  dsimp only
  refine .ite (.ite (.error (.inr (.lower id pkt tick above))) (.bind ?_ fun _ _ => .ok _)) (.ok _)
  refine (handleFill_fails cache pkt _ _ tick).mono ?_
  rintro why (rfl | rfl)
  · exact .inl rfl
  · exact .inr (.fill id pkt tick above)

/-- Behind the fill a response meets assertions only. -/
theorem behindFill_asserts (above : Packet → Bool) (cache : Cache R) (mshr : Mshr) (id : Nat)
    (pkt : Packet) (ref : Option BlkRef) (writebacks : List Packet) :
    Asserts (do
      let (mshr, cache) ← promoteStage mshr pkt ref cache
      let (ready, left) ← orFail (mshr.extractServiceableTargets pkt.cmd)
      let (cache, sent) ← cache.serviceMSHRTargets rp cfg above mshr pkt ref ready
      let cache := retireStage id left ref cache
      let (cache, evicted) := evictTemp cfg ref cache
      .ok (cache.doWritebacks above (writebacks ++ evicted), sent)) := by
  refine .bind (promoteStage_asserts mshr pkt ref cache) fun (promoted, readied) _ => ?_
  refine .bind (asserts_orFail _) fun (ready, left) _ => ?_
  refine .bind (serviceMSHRTargets_asserts above promoted pkt ref ready readied) ?_
  intro (serviced, sent) _
  exact .ok _

theorem recvTimingResp_stops (above : Packet → Bool) (cache : Cache R) (id : Nat) (pkt : Packet)
    (tick : Nat) : FailsIn (Stops cfg (.recvTimingResp id pkt tick above))
      (cache.recvTimingResp rp cfg above id pkt tick) := by
  refine .bind ((asserts_orFail _).stops _) fun mshr _ => ?_
  refine .bind (fillStage_stops cache mshr id pkt tick above) ?_
  intro (ref, filled, writebacks, resp) _
  exact (behindFill_asserts above filled mshr id resp ref writebacks).stops _

/-- An event stops the simulation in an assertion or in one of its panics. -/
theorem handle_stops (cache : Cache R) (e : CacheEvent) :
    FailsIn (Stops cfg e) (cache.handle rp cfg e) := by
  cases e with
  | recvTimingReq pkt tick above => exact recvTimingReq_stops above cache pkt tick
  | recvTimingResp id pkt tick above =>
    exact .map (recvTimingResp_stops above cache id pkt tick)
  | sendMSHRQueuePacket id pending above =>
    exact (sendMSHRQueuePacket_asserts above cache id pending).stops _
  | sendWriteQueuePacket => exact .bind ((asserts_orFail _).stops _) fun _ _ => .ok _
  | recvPfAck pkt => exact .map ((recvPfAck_asserts cache pkt).stops _)
  | issuePrefetch => exact .ok _
  | squashPrefetch id => exact .map ((squashPrefetch_asserts cache id).stops _)
  | recvTimingSnoopReq pkt above =>
    exact .map ((recvTimingSnoopReq_asserts above cache pkt).stops _)
  | setDownstreamPending => exact .ok _

end RasCache.Mem.Cache
