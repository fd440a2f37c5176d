import RasCache.Mem.Arbitration
import RasCache.Mem.Fetching

/-!
# Fills and the write buffer

`handleFill` asserts that no write of its line waits in the write buffer.
`fill_meets_no_write` says that this holds along every run without four kinds of
events: an uncacheable access that flushes a block that is being upgraded, a
WriteClean from above that passes the cache by, a snoop that forces a WriteClean,
and a send for which the arbitration prefers the older miss to the write whose turn
it is. Each of them breaks it.
-/
namespace RasCache.Mem

variable {R : Type}

namespace SendQueues

variable (rp : ReplacementPolicy R) (cfg : CacheParams) (sizes : QueueParams)

/-- The event lets a write of a line wait that is being fetched. -/
def hazard (s : SendQueues R) : SendQueuesEvent → Bool
  | .cache e => s.cache.overtakes rp cfg e
  | .send offer _ _ =>
    match s.getNextQueueEntry cfg sizes offer with
    -- the write had its turn, but the miss is older
    | some (.miss id) => decide (offer.conflict = some id) && s.cache.overtaken rp cfg id
    | _ => false
  | .fetch _ _ _ => false

/-- The assertion of `handleFill` on the write buffer fails. -/
def collides (s : SendQueues R) : SendQueuesEvent → Bool
  | .cache (.recvTimingResp id pkt tick above) =>
    s.arrives cfg (.recvTimingResp id pkt tick above) &&
      (s.cache.findId id).any fun entry =>
        entry.mshr.inService && !entry.mshr.uncacheable && Cache.isFill entry.mshr pkt &&
          (s.cache.findWrite cfg (pkt.line cfg.blkSize)).isSome
  | _ => false

/-- What holds between events. -/
structure Guarded (s : SendQueues R) : Prop where
  formed : s.cache.Formed rp cfg
  uncached : s.cache.Uncached
  clear : s.cache.Clear cfg

theorem start_guarded (repl : R) : (start repl).Guarded rp cfg := by
  refine ⟨Cache.empty_formed repl, ?_, ?_⟩
  · intro _ mem
    cases mem
  · intro _ mem
    cases mem

variable {rp cfg sizes}

variable {s t : SendQueues R} {id : Nat}

variable {e : CacheEvent}

theorem Guarded.act (guarded : s.Guarded rp cfg) (addressed : s.cache.Addressed cfg e)
    (calm : s.cache.overtakes rp cfg e = false) (acted : s.act rp cfg e = some t) :
    t.Guarded rp cfg := by
  obtain ⟨_, handled⟩ := act_cache rp cfg acted
  refine ⟨guarded.formed.handle handled, ?_, ?_⟩
  · exact Cache.handle_uncached guarded.uncached handled
  · exact Cache.handle_clear guarded.formed guarded.uncached guarded.clear addressed calm handled

theorem addressed_of_arrives (arrives : s.arrives cfg e = true) : s.cache.Addressed cfg e := by
  cases e with
  | recvTimingResp =>
    intro _ found
    simpa [SendQueues.arrives, found] using arrives
  | _ => trivial

theorem Guarded.sendMiss {pendingModifiedResp : Bool} {above : Packet → Bool}
    (guarded : s.Guarded rp cfg) (alone : s.cache.overtaken rp cfg id = false)
    (acted : s.act rp cfg (.sendMSHRQueuePacket id pendingModifiedResp above) = some t) :
    t.Guarded rp cfg := by
  have addressed : s.cache.Addressed cfg
      (.sendMSHRQueuePacket id pendingModifiedResp above) := trivial
  exact guarded.act addressed alone acted

theorem overtaken_of_unwritten {cache : Cache R}
    (unwritten : ∀ entry, cache.findId id = some entry →
      cache.findWrite cfg entry.mshr.key = none) : cache.overtaken rp cfg id = false := by
  unfold Cache.overtaken
  cases found : cache.findId id with
  | none => rfl
  | some entry => simp [unwritten entry found]

theorem overtaken_of_alone (alone : s.conflictingWrites cfg id = []) :
    s.cache.overtaken rp cfg id = false := by
  refine overtaken_of_unwritten fun entry found => ?_
  simp only [conflictingWrites, found, List.filter_eq_nil_iff, List.mem_range] at alone
  refine List.find?_eq_none.mpr fun pkt mem => ?_
  obtain ⟨i, bound, rfl⟩ := List.mem_iff_getElem.mp mem
  have apart := alone i bound
  simp only [List.getElem?_eq_getElem bound, Option.any_some, decide_eq_true_eq] at apart
  simp [apart]

theorem prefetch_alone {line : LineKey} (guarded : s.Guarded rp cfg)
    (drawn : s.act rp cfg (.issuePrefetch line) = some t)
    (grown : s.cache.mshrs.length < t.cache.mshrs.length) :
    t.cache.overtaken rp cfg s.cache.order = false := by
  obtain ⟨_, handled⟩ := act_cache rp cfg drawn
  have after : t.cache = (s.cache.issuePrefetch rp cfg line).1 :=
    (congrArg Prod.fst (Except.ok.inj handled)).symm
  rw [after] at grown ⊢
  unfold Cache.issuePrefetch at grown ⊢
  dsimp only at grown ⊢
  split at grown
  next =>
    -- the prefetch joins the MSHR of its line
    split at grown <;> simp [Cache.grantFill, Cache.setMshr] at grown
  next =>
    split at grown
    · exact absurd grown (Nat.lt_irrefl _)
    next free =>
      rw [if_neg free]
      refine overtaken_of_unwritten fun entry found => ?_
      obtain ⟨mem, named⟩ := Cache.findId_mem found
      rcases List.mem_append.mp mem with old | new
      · exact absurd named (Nat.ne_of_lt (guarded.formed.ordered.ahead entry old))
      · obtain rfl := List.mem_singleton.mp new
        rw [Mshr.allocateMissBuffer_key]
        simp only [Bool.or_eq_true, not_or] at free
        exact Option.not_isSome_iff_eq_none.mp free.2

/-- Every step without a hazard keeps the writes apart from the fetches. -/
theorem Guarded.step {e : SendQueuesEvent} (guarded : s.Guarded rp cfg)
    (calm : s.hazard rp cfg sizes e = false)
    (taken : s.step rp cfg sizes e = some t) : t.Guarded rp cfg := by
  cases e with
  | cache =>
    simp only [SendQueues.step] at taken
    split at taken
    next arrives => exact guarded.act (addressed_of_arrives arrives) calm taken
    next => cases taken
  | send =>
    simp only [SendQueues.step] at taken
    split at taken
    next =>
      obtain ⟨next, chosen, acted⟩ := Option.bind_eq_some_iff.mp taken
      cases next with
      | miss =>
        refine guarded.sendMiss ?_ acted
        -- a miss is alone, or it is the conflict, and then the hazard is ruled out
        rcases getNextQueueEntry_miss cfg sizes chosen with alone | ⟨conflict, _⟩
        · exact overtaken_of_alone alone
        · simpa [hazard, chosen, conflict] using calm
      | write i =>
        have addressed : s.cache.Addressed cfg (.sendWriteQueuePacket i) := trivial
        exact guarded.act addressed rfl acted
    next => cases taken
  | fetch line =>
    simp only [SendQueues.step] at taken
    obtain ⟨middle, drawn, taken⟩ := Option.bind_eq_some_iff.mp taken
    have addressed : s.cache.Addressed cfg (.issuePrefetch line) := trivial
    have ready : middle.Guarded rp cfg := guarded.act addressed rfl drawn
    split at taken
    -- a prefetch is drawn only for a line that nothing else waits for
    next grown => exact ready.sendMiss (prefetch_alone guarded drawn grown) taken
    next =>
      cases taken
      exact ready

theorem Guarded.uncollided (guarded : s.Guarded rp cfg) (e : SendQueuesEvent) :
    s.collides cfg e = false := by
  rw [← Bool.not_eq_true]
  intro collision
  unfold collides at collision
  split at collision
  next =>
    simp only [Bool.and_eq_true] at collision
    obtain ⟨arrives, collision⟩ := collision
    obtain ⟨entry, found, collision⟩ := (Option.any_eq_true _ _).mp collision
    simp only [Bool.and_eq_true, Bool.not_eq_true'] at collision
    obtain ⟨⟨⟨serving, cacheable⟩, fill⟩, waits⟩ := collision
    have direct : entry.mshr.isForward = false := by
      simp only [Cache.isFill, Bool.and_eq_true, Bool.not_eq_true'] at fill
      exact fill.1
    -- so the MSHR is one that fills its line
    have filling := entry.mshr.filling_iff.mpr ⟨serving, direct, cacheable⟩
    have mem := (Cache.findId_mem found).1
    have free := guarded.clear entry mem filling
    rw [addressed_of_arrives arrives entry found] at free
    rw [Cache.findWrite_eq, free] at waits
    cases waits
  next => cases collision

variable (rp cfg sizes)

/-- Along every run without a hazard, no response that fills a line finds a write of
the line in the write buffer. -/
theorem fill_meets_no_write (repl : R) (events : List SendQueuesEvent)
    (calm : Runs.Along (step rp cfg sizes)
      (fun s e => s.hazard rp cfg sizes e = false) (start repl) events) :
    Runs.Along (step rp cfg sizes) (fun s e => s.collides cfg e = false) (start repl) events :=
  Runs.along_of_invariant (fun _ _ _ guarded calm taken => guarded.step calm taken)
    (fun _ e guarded _ => guarded.uncollided e) (start repl) events
    (start_guarded rp cfg repl) calm

/-! ### Runs -/

/-- Room for a few entries. -/
def crowded (writeBuffers : Nat) : QueueParams :=
  { mshrs := 4, writeBuffers, tgtsPerMSHR := 4 }

def receive (pkt : Packet) : SendQueuesEvent := .cache (.recvTimingReq pkt 0 fun _ => false)

def answer (id : Nat) (pkt : Packet) : SendQueuesEvent :=
  .cache (.recvTimingResp id pkt 0 fun _ => false)

def snoop (pkt : Packet) : SendQueuesEvent :=
  .cache (.recvTimingSnoopReq { pkt with expressSnoop := true } fun _ => false)

def select (offer : Offer) : SendQueuesEvent := .send offer false fun _ => false

/-- A load that may not fill is served from the temporary block, whose eviction
waits in the write buffer with the deferred store of the same line behind it. -/
def servedFromTemp : List SendQueuesEvent :=
  [receive (.noFillLoad 0), select { miss := some 0 },
   receive { Packet.ofRequest {} .writeReq 0 8 with data := some 3 },
   answer 0 { Packet.ofBlock Packet.noFillReq .readResp 0 64 with
     data := some 1, hasSharers := true }]

/-- As long as the write buffer is not full, the write goes before the miss. -/
theorem fill_meets_no_write_servedFromTemp : Runs.Along (step oneBlock (.guarded 1) (crowded 2))
      (fun s e => s.collides (.guarded 1) e = false) (start ()) (servedFromTemp ++
        [select { miss := some 0, write := some 0, conflict := some 0 }, select { miss := some 0 },
         answer 0 { Packet.ofBlock Packet.noFillReq .readExResp 0 64 with data := some 1 }]) := by
  apply fill_meets_no_write
  refine Runs.along_cons rfl rfl (Runs.along_cons rfl rfl ?_)
  refine Runs.along_cons rfl rfl (Runs.along_cons rfl rfl ?_)
  refine Runs.along_cons rfl rfl (Runs.along_cons rfl rfl ?_)
  exact Runs.along_cons rfl rfl trivial

/-- An uncacheable load flushes the block while its upgrade is outstanding. -/
def flushedUpgrade : List SendQueuesEvent :=
  [receive (.ofRequest {} .readReq 0 8), select { miss := some 0 },
   answer 0 { Packet.ofBlock {} .readResp 0 64 with hasSharers := true, data := some 1 },
   receive (.ofRequest {} .writeReq 0 8), select { miss := some 1 },
   receive (.ofRequest { flags := { uncacheable := true } } .readReq 0 8)]

/-- A snoop cleans a block that is dirty and shared, while its upgrade waits in the cache below,
which forwards the snoop. -/
def cleanedUpgrade : List SendQueuesEvent :=
  [receive (.ofRequest {} .readReq 0 8), select { miss := some 0 },
   answer 0 { Packet.ofBlock {} .readResp 0 64 with data := some 1 },
   receive { Packet.ofRequest {} .writeReq 0 8 with data := some 2 },
   snoop (.ofBlock {} .readSharedReq 0 64),
   receive { Packet.ofRequest {} .writeReq 0 8 with data := some 3 }, select { miss := some 1 },
   .cache (.setDownstreamPending 1 true),
   snoop (.ofBlock { flags := { clean := true } } .cleanSharedReq 0 64),
   .cache (.setDownstreamPending 1 false)]

/-- A WriteClean from above passes the line by that is being fetched. -/
def passedBy : List SendQueuesEvent :=
  [receive (.ofRequest {} .readReq 0 8), select { miss := some 0 },
   receive { Packet.ofBlock {} .writeClean 0 64 with writeThrough := true, data := some 3 }]

/-- With the write buffer full it is the write's turn, but the miss is older. -/
def prefersMiss : List SendQueuesEvent :=
  servedFromTemp ++ [select { miss := some 0, write := some 0, conflict := some 0 }]

/-- With room for one write, no fill of the run meets a write of its line. -/
def Unmet (events : List SendQueuesEvent) : Prop :=
  Runs.Along (step oneBlock (.guarded 1) (crowded 1))
    (fun s e => s.collides (.guarded 1) e = false) (start ()) events

theorem not_unmet_of_collides {events : List SendQueuesEvent} {next : SendQueuesEvent}
    (met : ((Runs.run (step oneBlock (.guarded 1) (crowded 1)) (start ()) events).any fun s =>
      s.collides (.guarded 1) next) = true) : ¬ Unmet (events ++ [next]) := by
  obtain ⟨s, ran, met⟩ := (Option.any_eq_true _ _).mp met
  refine Runs.not_along_of_run _ s events next ran fun free => ?_
  rw [met] at free
  cases free

/-- Each of the four hazards makes a fill meet a write of its line. -/
theorem fill_meets_write :
    ¬ Unmet (flushedUpgrade ++ [answer 1 (.ofBlock {} .upgradeResp 0 64)]) ∧
    ¬ Unmet (cleanedUpgrade ++ [answer 1 (.ofBlock {} .upgradeResp 0 64)]) ∧
    ¬ Unmet (passedBy ++ [answer 0 { Packet.ofBlock {} .readResp 0 64 with data := some 1 }]) ∧
    ¬ Unmet (prefersMiss ++
      [answer 0 { Packet.ofBlock Packet.noFillReq .readExResp 0 64 with data := some 1 }]) := by
  refine ⟨?_, ?_, ?_, ?_⟩ <;> exact not_unmet_of_collides (by decide)

end SendQueues

end RasCache.Mem
