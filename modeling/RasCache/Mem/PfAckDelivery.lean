import RasCache.Mem.Line

/-!
# Delivery of PfAcks

`recvPfAck` clears the no-fill flag of the MSHR a fetch of the level above is
meant for. Acks of the history buffer are asserted to carry a block address. The
ack of a demand fetch is the packet of the CPU as it is, and the MSHR queue is
searched with the address that packet carries, so the ack arrives only if the
access starts at a block address (`pfAck_delivered_iff`).
-/
namespace RasCache.Mem.Cache

open Outcomes

variable {R : Type} (rp : ReplacementPolicy R) (cfg : CacheParams)

/-- Every MSHR is for a block address, and the MSHRs can be told apart. -/
structure Blockwise (cache : Cache R) : Prop where
  aligned : ∀ entry ∈ cache.mshrs, entry.mshr.key.Aligned cfg.blkSize
  ordered : cache.Ordered
  single : cache.OneEach

variable {cache : Cache R}

theorem step_blockwise {e : CacheEvent} {after : Cache R} (blockwise : cache.Blockwise cfg)
    (taken : cache.step rp cfg e = some after) : after.Blockwise cfg := by
  obtain ⟨sent, handled⟩ := step_some_iff.mp taken
  refine ⟨fun now mem => ?_, handle_ordered blockwise.ordered handled,
    handle_oneEach blockwise.single handled⟩
  cases handle_origin handled now mem with
  | kept old waits _ same =>
    rw [same.key]
    exact blockwise.aligned old waits
  | opened pkt _ _ new =>
    rw [new, Mshr.allocateMissBuffer_key]
    exact Packet.line_aligned cfg.blkSize pkt

/-- The fetch that `pkt` acknowledges lets this MSHR fill: it is cacheable, of the
block that holds the address, and allocates. -/
def Awaits (pkt : Packet) (entry : MshrEntry) : Prop :=
  entry.mshr.seen (pkt.line cfg.blkSize) = true ∧ entry.mshr.allocOnFill = true

def Delivered (cache after : Cache R) (pkt : Packet) : Prop :=
  (∀ entry ∈ cache.mshrs, Awaits cfg pkt entry →
    ∃ now ∈ after.mshrs, now.id = entry.id ∧ now.mshr.mayNotFill = false) ∧
  ((∀ entry ∈ cache.mshrs, ¬ Awaits cfg pkt entry) → after.mshrs = cache.mshrs)

variable {pkt : Packet}

/-- The ack reaches an MSHR that waits for it. -/
theorem grantFill_delivered (blockwise : cache.Blockwise cfg) {entry : MshrEntry}
    (found : cache.findMshr (pkt.line cfg.blkSize) = some entry) :
    Delivered cfg cache (cache.grantFill entry) pkt := by
  have mem := findMshr_mem found
  constructor
  · intro _ waits awaits
    have same := findMshr_of_seen blockwise.single blockwise.ordered waits awaits.1
    obtain rfl := Option.some.inj (found.symm.trans same)
    have granted : (⟨entry.id, entry.mshr.updateMayNotFill false⟩ : MshrEntry) ∈
        (cache.grantFill entry).mshrs :=
      List.mem_map.mpr ⟨entry, mem, by simp⟩
    refine ⟨_, granted, rfl, ?_⟩
    have allocates : entry.mshr.targets.flags.allocOnFill = true := awaits.2
    simp [Mshr.mayNotFill, Mshr.updateMayNotFill, TargetList.updateMayNotFill, allocates]
  · intro none
    -- a list that does not allocate keeps its flag
    have idle : entry.mshr.targets.flags.allocOnFill = false :=
      eq_false_of_ne_true fun allocates => none entry mem ⟨findMshr_seen found, allocates⟩
    have unchanged : entry.mshr.updateMayNotFill false = entry.mshr := by
      simp [Mshr.updateMayNotFill, TargetList.updateMayNotFill, idle]
    simp only [grantFill, setMshr, unchanged]
    refine (List.map_congr_left fun other waits => ?_).trans (List.map_id _)
    split
    next same => rw [blockwise.ordered.unique other entry waits mem same]; rfl
    · rfl

theorem offset_eq_zero {addr blkSize : Nat} (aligned : Packet.blkAlign addr blkSize = addr) :
    addr % blkSize = 0 := by
  have start : addr - addr % blkSize = addr := aligned
  have small := Nat.mod_le addr blkSize
  omega

/-- A packet whose address is no block address meets no MSHR. -/
theorem findMshr_unaligned (blockwise : cache.Blockwise cfg)
    (inside : pkt.getOffset cfg.blkSize ≠ 0) : cache.findMshr pkt.rawLine = none := by
  cases found : cache.findMshr pkt.rawLine with
  | none => rfl
  | some entry =>
    have aligned := blockwise.aligned entry (findMshr_mem found)
    rw [findMshr_key found] at aligned
    exact absurd (offset_eq_zero aligned) inside

/-- In every cache reached, the ack of a history-buffer or demand fetch is
delivered exactly if its address is a block address, or nobody still needs it. -/
theorem pfAck_delivered_iff (repl : R) (events : List CacheEvent) (cache : Cache R) (pkt : Packet)
    (ran : Runs.run (step rp cfg) (empty repl) events = some cache) (enabled : cfg.pfAckEn = true)
    (acks : pkt.isDemandFetch = true ∨ pkt.getOffset cfg.blkSize = 0) :
    ∃ after, cache.recvPfAck cfg pkt = .ok after ∧ (Delivered cfg cache after pkt ↔
        pkt.getOffset cfg.blkSize = 0 ∨
          ∀ entry ∈ cache.mshrs, Awaits cfg pkt entry → entry.mshr.mayNotFill = false) := by
  have blockwise : cache.Blockwise cfg :=
    Runs.run_invariant (fun s e t inv _ => step_blockwise rp cfg inv) (empty repl)
      cache events
      ⟨by simp [empty], empty_ordered repl, empty_oneEach repl⟩
      (Runs.along_trivial _ events) ran
  have accepted : (!pkt.isDemandFetch && decide (pkt.getOffset cfg.blkSize ≠ 0)) = false := by
    rcases acks with demand | start
    · simp [demand]
    · simp [start]
  simp only [recvPfAck, accepted, enabled, Bool.false_eq_true, if_false, if_true]
  -- at the start of a block the address is the line, and every MSHR of it is found
  by_cases start : pkt.getOffset cfg.blkSize = 0
  · have line : pkt.rawLine = pkt.line cfg.blkSize := by
      simp [Packet.rawLine, Packet.line, Packet.blkAlign, show pkt.addr % cfg.blkSize =
        0 from start]
    rw [line]
    cases found : cache.findMshr (pkt.line cfg.blkSize) with
    | some =>
      refine ⟨_, rfl, iff_of_true ?_ (Or.inl start)⟩
      exact grantFill_delivered cfg blockwise found
    | none =>
      refine ⟨_, rfl, iff_of_true ⟨fun entry mem awaits => ?_, fun _ => rfl⟩ (Or.inl start)⟩
      have unseen := unseen_of_free found mem
      rw [awaits.1] at unseen
      cases unseen
  · -- anywhere else the address is no line, so no MSHR is found and nothing is cleared
    rw [findMshr_unaligned cfg blockwise start]
    refine ⟨cache, rfl, ?_⟩
    constructor
    · rintro ⟨delivered, -⟩
      refine Or.inr fun entry mem awaits => ?_
      obtain ⟨now, there, same, _⟩ := delivered entry mem awaits
      rwa [← blockwise.ordered.unique now entry there mem same]
    · intro cleared
      refine ⟨fun entry mem awaits => ⟨entry, mem, rfl, ?_⟩, fun _ => rfl⟩
      exact (cleared.resolve_left start) entry mem awaits

/-- A speculative read of the level above is under way in the second level. -/
def deniedMiss : List CacheEvent := [.recvTimingReq .noFillRead 0 fun _ => false]

/-- The CPU load of the bytes 8 to 15, now safe. -/
def safeLoad : Packet := .ofRequest { flags := { demandFetch := true } } .readReq 8 8

theorem pfAck_delivered_iff_start :
    ∃ cache after, Runs.run (step oneBlock (.guarded 2)) (empty ()) deniedMiss = some cache ∧
      cache.recvPfAck (.guarded 2) { safeLoad with addr := 0 } = .ok after ∧
      Delivered (.guarded 2) cache after { safeLoad with addr := 0 } := by
  obtain ⟨after, acked, delivered⟩ := pfAck_delivered_iff oneBlock (.guarded 2) () deniedMiss _
    { safeLoad with addr := 0 } rfl rfl (.inl rfl)
  exact ⟨_, after, rfl, acked, delivered.mpr (.inl rfl)⟩

/-- The load joins the speculative miss of the first level, which acknowledges it
with the address 8. The second level finds no MSHR there, and keeps its own from
filling. -/
theorem safeLoad_unheard : ((Runs.run (step oneBlock (.guarded 1)) (empty ())
        [.recvTimingReq (.noFillLoad 0) 0 fun _ => false]).any fun first =>
      (first.handle oneBlock (.guarded 1) (.recvTimingReq safeLoad 1 fun _ => false)).toOption.any
        fun out => out.2.pfAck == [safeLoad]) = true ∧
    ∃ cache after, Runs.run (step oneBlock (.guarded 2)) (empty ()) deniedMiss = some cache ∧
      cache.recvPfAck (.guarded 2) safeLoad = .ok after ∧
      ¬ Delivered (.guarded 2) cache after safeLoad := by
  refine ⟨by decide, _, _, rfl, rfl, fun delivered => ?_⟩
  obtain ⟨_, mem, -, cleared⟩ := delivered.1 _ (List.mem_singleton.mpr rfl) ⟨rfl, rfl⟩
  obtain rfl := List.mem_singleton.mp mem
  cases cleared

end RasCache.Mem.Cache
