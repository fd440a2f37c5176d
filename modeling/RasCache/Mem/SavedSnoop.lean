import RasCache.Mem.Cache

/-!
# Snoops saved for later

An MSHR in service saves a snoop that comes after its request, and the cache
replays the saved packet once the response is there, upwards first. Where the
cache will respond, the saved packet shares the request of the snooped one.
Otherwise it is a new packet for the block with a copy of the request, and
`Request(const Request &)` leaves the domain of the copy as it finds it: the
caches above, which look everything up by domain, then search for another line
(`savedSnoop_matches_iff`).
-/
namespace RasCache.Mem

/-- The packet `Cache::handleSnoop` sends to the caches above. -/
def Packet.upward (pkt : Packet) : Packet :=
  { Packet.ofRequest pkt.req pkt.cmd pkt.addr pkt.size with
    mayNotFill := pkt.mayNotFill
    expressSnoop := true }

/-- A cache finds the same block, MSHR and write for the two snoops. -/
def Cache.SameMatches {R : Type} (rp : ReplacementPolicy R) (cfg : CacheParams)
    (upper : Cache R) (first second : Packet) : Prop :=
  upper.tags.findBlock rp (first.line cfg.blkSize) =
      upper.tags.findBlock rp (second.line cfg.blkSize) ∧
    upper.findMshr (first.line cfg.blkSize) = upper.findMshr (second.line cfg.blkSize) ∧
    upper.findWrite cfg (first.line cfg.blkSize) =
      upper.findWrite cfg (second.line cfg.blkSize)

/-- Only snoops of the same line match the same in every cache. -/
theorem Cache.sameMatches_iff (blkSize : Nat) (first second : Packet) :
    (∀ (R : Type) (rp : ReplacementPolicy R) (cfg : CacheParams) (upper : Cache R),
      cfg.blkSize = blkSize → upper.SameMatches rp cfg first second) ↔
      first.line blkSize = second.line blkSize := by
  constructor
  · intro matched
    -- a cache whose write buffer has a write for the line of the first snoop
    let write : Packet := Packet.ofRequest
      { flags := { secure := first.isSecure }, domainID := first.domainID } .writebackDirty
      first.addr blkSize
    have named : write.line blkSize = first.line blkSize := rfl
    have found := (matched Unit oneBlock { CacheParams.guarded 1 with blkSize }
      { Cache.empty () with writeBuffer := [write] } rfl).2.2
    by_contra apart
    simp [findWrite, named, apart, show write.req.flags.uncacheable = false from rfl] at found
  · intro same _ _ _ _ size
    simp only [SameMatches, size, same, true_and]

namespace Mshr

theorem replaceUpgrades_length (targets : TargetList) :
    targets.replaceUpgrades.list.length = targets.list.length := by
  unfold TargetList.replaceUpgrades
  split
  · exact List.length_map _
  · rfl

/-- What `handleSnoop` appends to the targets is the saved snoop. -/
theorem handleSnoop_appended {mshr : Mshr} {pkt : Packet} {order : Nat} {result : SnoopResult}
    {target : Target} (snooped : mshr.handleSnoop pkt order = some result)
    (appended : result.mshr.targets.list = mshr.targets.list ++ [target]) :
    target.pkt = mshr.snoopCopy pkt (mshr.willRespond pkt) ∧ target.source = .fromSnoop := by
  -- only a list that has grown can end in the new target
  have unlike (list : List Target) (same : list = mshr.targets.list ++ [target])
      (length : list.length = mshr.targets.list.length) : False := by
    rw [same, List.length_append] at length
    simp at length
  cases handleSnoop_cases snooped with
  | replaced => exact (unlike _ appended (replaceUpgrades_length _)).elim
  | ignored => exact (unlike _ appended rfl).elim
  | due =>
    rw [withoutUpgrades_targets] at appended
    exact (unlike _ appended rfl).elim
  | saved =>
    have same : (mshr.withoutUpgrades pkt).blkSize = mshr.blkSize := by
      rcases withoutUpgrades_cases mshr pkt with same | replaced
      · rw [same]
      · rw [replaced]
    have responds : (mshr.withoutUpgrades pkt).willRespond pkt = mshr.willRespond pkt := by
      rw [willRespond, willRespond, withoutUpgrades_pendingModified]
    -- a snoop is saved if the response brings a modified copy or the snoop invalidates
    simp only [snoopInService, saveSnoop, responds] at appended
    split at appended
    · simp only [TargetList.add, withoutUpgrades_targets] at appended
      obtain rfl := List.singleton_inj.mp (List.append_cancel_left appended)
      simp only [snoopCopy, same, and_self]
    · rw [withoutUpgrades_targets] at appended
      exact (unlike _ appended rfl).elim

/-- A snoop that `handleSnoop` saves: the copy has its command and secure bit. It
has its address and domain exactly if the cache will respond, or the address is
that of the block and the copied request happens to have the domain. The caches
above find the same for the two snoops exactly if the domains agree. -/
theorem savedSnoop_matches_iff (mshr : Mshr) (pkt : Packet) (order : Nat) (result : SnoopResult)
    (target : Target) (snooped : mshr.handleSnoop pkt order = some result)
    (appended : result.mshr.targets.list = mshr.targets.list ++ [target]) :
    target.source = .fromSnoop ∧ target.pkt.cmd = pkt.cmd ∧ target.pkt.isSecure = pkt.isSecure ∧
    (target.pkt.addr = pkt.addr ∧ target.pkt.domainID = pkt.domainID ↔ mshr.willRespond pkt = true ∨
        Packet.blkAlign pkt.addr mshr.blkSize = pkt.addr ∧ pkt.req.copyDomainID = pkt.domainID) ∧
    ((∀ (R : Type) (rp : ReplacementPolicy R) (cfg : CacheParams) (upper : Cache R),
        cfg.blkSize = mshr.blkSize → upper.SameMatches rp cfg target.pkt.upward pkt.upward) ↔
      mshr.willRespond pkt = true ∨ pkt.req.copyDomainID = pkt.domainID) := by
  obtain ⟨copy, source⟩ := handleSnoop_appended snooped appended
  rw [Cache.sameMatches_iff, copy]
  refine ⟨source, ?_⟩
  cases responds : mshr.willRespond pkt with
  | true => exact ⟨rfl, rfl, iff_of_true ⟨rfl, rfl⟩ (.inl rfl), iff_of_true rfl (.inl rfl)⟩
  | false =>
    -- a copy has the request of the snoop, whose domain the constructor may not take over
    simp only [Bool.false_eq_true, false_or]
    refine ⟨rfl, rfl, Iff.rfl, ?_⟩
    have aligned := Packet.blkAlign_idem pkt.addr mshr.blkSize
    constructor
    · intro same
      exact congrArg LineKey.domainID same
    · intro same
      simp [snoopCopy, Packet.upward, Packet.line, Packet.ofBlock, Packet.ofRequest,
        Packet.isSecure, Packet.domainID, Request.copy, aligned, same]

/-- A read of domain 1, sent to the level below. -/
def sentRead : Mshr :=
  { Mshr.allocateMissBuffer 64 (.ofBlock { domainID := 1 } .readSharedReq 0 64) 0 true false with
    inService := true }

/-- Another cache asks for the line to write it. Its request is of domain 1; the
storage of a copy holds `stale`. -/
def otherWrite (stale : DomainID) : Packet :=
  .ofBlock { domainID := 1, copyDomainID := stale } .readExReq 0 64

theorem savedSnoop_matches_iff_sentRead :
    ∃ result target, sentRead.handleSnoop (otherWrite 1) 1 = some result ∧
      result.mshr.targets.list = sentRead.targets.list ++ [target] ∧
      ∀ (R : Type) (rp : ReplacementPolicy R) (cfg : CacheParams) (upper : Cache R),
        cfg.blkSize = 64 → upper.SameMatches rp cfg target.pkt.upward (otherWrite 1).upward := by
  refine ⟨_, _, rfl, rfl, ?_⟩
  exact (savedSnoop_matches_iff sentRead (otherWrite 1) 1 _ _ rfl rfl).2.2.2.2.mpr (.inr rfl)

/-- The line of the read, in a cache above. -/
def readAbove : List CacheEvent :=
  [.recvTimingReq (.ofRequest { domainID := 1 } .readReq 0 8) 0 fun _ => false,
   .sendMSHRQueuePacket 0 false fun _ => false,
   .recvTimingResp 0 { Packet.ofBlock { domainID := 1 } .readResp 0 64 with data := some 5 } 1
     fun _ => false]

/-- Whether a cache above still has the line after a snoop. -/
def keepsLine (snoop : Packet) : Option Bool :=
  (Runs.run (Cache.step oneBlock (.guarded 1)) (Cache.empty ())
    (readAbove ++ [.recvTimingSnoopReq snoop.upward fun _ => false])).map fun cache =>
      (cache.tags.findBlock oneBlock ((otherWrite 0).line 64)).isSome

/-- The storage of the copy held the domain 0: the saved snoop leaves the line
valid in the cache above that the snoop itself takes it from. -/
theorem savedSnoop_misses : ∃ result target, sentRead.handleSnoop (otherWrite 0) 1 = some result ∧
      result.mshr.targets.list = sentRead.targets.list ++ [target] ∧
      target.pkt.domainID ≠ (otherWrite 0).domainID ∧
      keepsLine (otherWrite 0) = some false ∧ keepsLine target.pkt = some true := by
  refine ⟨_, _, rfl, rfl, ?_⟩
  decide

end Mshr

end RasCache.Mem
