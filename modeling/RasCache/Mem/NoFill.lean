import RasCache.Mem.Queue

/-!
# No-fill misses leave the tag array alone

The fill decision of a response reads one flag of the MSHR. The flag is kept up
to date as targets come and go, so its meaning is an invariant of the whole life
of the MSHR: where it is clear, the fill was granted or a target asks for it.
From that, the response of an MSHR with no-fill targets only goes through the
temporary block.
-/
namespace RasCache.Mem

/-! ### What a clear flag stands for -/

/-- The flag is clear only where the fill was granted or a target asks for it. -/
def TargetList.Backed (granted : Prop) (l : TargetList) : Prop :=
  l.flags.mayNotFill = false → granted ∨ l.list.any Target.mayFill = true

namespace TargetList

variable {granted : Prop} {l : TargetList}

theorem Backed.mono {more : Prop} (backed : l.Backed granted) (implies : granted → more) :
    l.Backed more :=
  fun clear => (backed clear).imp_left implies

theorem init_backed (blkSize : Nat) : (init blkSize).Backed granted := by
  intro clear
  cases clear

theorem add_backed (blkSize : Nat) (t : Target) (backed : l.Backed granted) :
    (l.add blkSize t).Backed granted := by
  intro clear
  simp only [add, TargetFlags.updateFlags_mayNotFill, Bool.and_eq_false_iff] at clear
  simp only [add, List.any_append, Bool.or_eq_true]
  rcases clear with before | asks
  · exact (backed before).imp_right .inl
  · refine .inr (.inr ?_)
    simpa [Target.mayFill] using asks

theorem populated_backed (blkSize : Nat) (targets : List Target) :
    (populated blkSize targets).Backed granted := by
  intro clear
  have flag := TargetFlags.populateFlags_mayNotFill blkSize targets
  have asks : (!targets.any Target.mayFill) = false := flag.symm.trans clear
  rw [Bool.not_eq_false'] at asks
  exact .inr asks

theorem replaceUpgrades_backed (backed : l.Backed granted) : l.replaceUpgrades.Backed granted := by
  -- a replaced upgrade asks for the fill as the upgrade did
  have same : ∀ t : Target, Target.mayFill { t with pkt := replaceUpgrade t.pkt } = t.mayFill :=
    fun t => by simp [Target.mayFill]
  unfold replaceUpgrades
  split
  · intro clear
    rcases backed clear with granted | asks
    · exact .inl granted
    · refine .inr ?_
      simpa only [List.any_map, Function.comp_def, same] using asks
  · exact backed

/-- A grant explains the flag it clears. -/
theorem grant_backed (backed : l.Backed granted)
    (allocates : l.flags.allocOnFill = true → granted) :
    (l.updateMayNotFill false).Backed granted := by
  unfold updateMayNotFill
  split
  next allocOnFill => exact fun _ => .inl (allocates allocOnFill)
  next => exact backed

end TargetList

variable {pkt : Packet} {order : Nat}

namespace Mshr

variable {granted : Prop} {mshr : Mshr} {after : Mshr}

theorem allocateTarget_backed {allocOnFill : Bool}
    (added : mshr.allocateTarget pkt order allocOnFill = some after)
    (backed : mshr.targets.Backed granted) : after.targets.Backed granted := by
  cases allocateTarget_cases added with
  | deferred => exact backed
  | joined => exact TargetList.add_backed mshr.blkSize _ backed

/-- A miss opened with the flag cleared is one for a packet that may fill. -/
theorem allocateMissBuffer_backed (blkSize : Nat) (pkt : Packet) (order : Nat)
    (allocOnFill clearNoFill : Bool) (cleared : clearNoFill = true → pkt.mayNotFill = false) :
    (allocateMissBuffer blkSize pkt order allocOnFill clearNoFill).targets.Backed granted := by
  have first : (allocate (Packet.blkAlign pkt.addr blkSize) blkSize pkt order
      allocOnFill).targets.Backed granted :=
    TargetList.add_backed blkSize _ (TargetList.init_backed blkSize)
  unfold allocateMissBuffer
  dsimp only
  split
  next clear =>
    have asks : (allocate (Packet.blkAlign pkt.addr blkSize) blkSize pkt order
        allocOnFill).targets.list.any Target.mayFill = true := by
      simp only [allocate, TargetList.add, TargetList.init, List.nil_append, List.any_cons,
        List.any_nil, Bool.or_false, Target.mayFill, cleared clear]
      split <;> decide
    unfold updateMayNotFill TargetList.updateMayNotFill
    split
    · exact fun _ => .inr asks
    · exact first
  next => exact first

theorem saveSnoop_backed (pkt : Packet) (order : Nat) (backed : mshr.targets.Backed granted) :
    (mshr.saveSnoop pkt order).targets.Backed granted := by
  unfold saveSnoop
  split
  · exact TargetList.add_backed mshr.blkSize _ backed
  · exact backed

theorem handleSnoop_backed {result : SnoopResult}
    (handled : mshr.handleSnoop pkt order = some result) (backed : mshr.targets.Backed granted) :
    result.mshr.targets.Backed granted := by
  -- behind the request only the deferred targets are touched before the snoop is saved
  have start : (mshr.withoutUpgrades pkt).targets.Backed granted := by
    rw [withoutUpgrades_targets]
    exact backed
  cases handleSnoop_cases handled with
  | replaced => exact TargetList.replaceUpgrades_backed backed
  | ignored => exact backed
  | due => exact start
  | saved => exact saveSnoop_backed pkt order start

theorem promoteDeferredTargets_backed (mshr after : Mshr)
    (promoted : mshr.promoteDeferredTargets = some after) : after.targets.Backed granted := by
  unfold promoteDeferredTargets at promoted
  split at promoted <;> cases promoted
  exact TargetList.populated_backed mshr.blkSize _

/-- The popped target took its say in the fill with it, but the flag stays: some
other reason for the clear flag has to be left. -/
theorem forceDeallocateTarget_backed (popped : mshr.forceDeallocateTarget = some (some after))
    (reason : ∀ front rest, mshr.targets.list = front :: rest → rest ≠ [] →
      mshr.mayNotFill = false → granted ∨ rest.any Target.mayFill = true) :
    after.targets.Backed granted := by
  obtain ⟨front, rest, targets, outcome⟩ := forceDeallocateTarget_cases popped
  rcases outcome with ⟨_, promoted⟩ | ⟨more, rfl⟩
  · exact promoteDeferredTargets_backed _ after promoted
  · exact reason front rest targets more

end Mshr

/-! ### The run with its grants -/

/-- A cache, and the MSHRs whose fill permission was granted since their last
response. -/
structure GrantState (R : Type) where
  cache : Cache R
  granted : List Nat

namespace GrantState

variable {R : Type} (rp : ReplacementPolicy R) (cfg : CacheParams)

/-- The grants after an event. A grant takes effect on an MSHR that allocates on
a fill, and ends with the response, which rebuilds the flags. -/
def grants (s : GrantState R) (e : CacheEvent) : List Nat :=
  match Cache.responds e with
  | some id => s.granted.filter fun other => decide (other ≠ id)
  | none =>
    match s.cache.grantee cfg e with
    | some entry => if entry.mshr.allocOnFill then entry.id :: s.granted else s.granted
    | none => s.granted

def step (s : GrantState R) (e : CacheEvent) : Option (GrantState R) :=
  (s.cache.step rp cfg e).map fun cache => { cache, granted := s.grants cfg e }

def start (repl : R) : GrantState R where
  cache := .empty repl
  granted := []

/-- Every clear flag has its reason. -/
def Backed (s : GrantState R) : Prop :=
  ∀ entry ∈ s.cache.mshrs, entry.mshr.targets.Backed (entry.id ∈ s.granted)

/-- A fill response comes for an MSHR with no-fill targets only, deferred ones
included, and without a grant. -/
structure Denied (s : GrantState R) (id : Nat) (pkt : Packet) (mshr : Mshr) : Prop where
  answered : s.cache.answered id pkt = some mshr
  fills : Cache.isFill mshr pkt = true
  noFill : ∀ t ∈ mshr.waiting, t.mayFill = false
  ungranted : id ∉ s.granted

/-- The condition on the state before a step. A prefetch that is dropped must
leave another reason for a clear flag, and the write allocator must not want to
allocate the line of a denied whole-line write. -/
def Observed (s : GrantState R) : CacheEvent → Prop
  | .squashPrefetch id =>
    ∀ entry front rest, s.cache.findId id = some entry →
      entry.mshr.targets.list = front :: rest → rest ≠ [] → entry.mshr.mayNotFill = false →
        id ∈ s.granted ∨ rest.any Target.mayFill = true
  | .recvTimingResp id pkt _ _ =>
    ∀ mshr, s.Denied id pkt mshr →
      s.cache.tags.findBlock rp (pkt.line cfg.blkSize) = none →
        ¬ (cfg.hasWriteAllocator = true ∧ mshr.wasWholeLineWrite = true ∧
          s.cache.writeAllocator.allocate = true)
  | _ => True

/-- A denied response brings no line into the tag array and changes no block but
the one that holds the line already. Without such a block the tags stay as they
are, the replacement data included, and the temporary block serves the data. -/
def Uninstalled (s : GrantState R) : CacheEvent → Prop
  | .recvTimingResp id pkt tick above =>
    ∀ mshr after, s.Denied id pkt mshr →
      s.step rp cfg (.recvTimingResp id pkt tick above) = some after →
        (∀ place, (after.cache.tags.blk place).valid = true →
          (s.cache.tags.blk place).valid = true ∧
            (after.cache.tags.blk place).key = (s.cache.tags.blk place).key) ∧
        (∀ place, s.cache.tags.findBlock rp (pkt.line cfg.blkSize) ≠ some place →
          after.cache.tags.blk place = s.cache.tags.blk place) ∧
        (s.cache.tags.findBlock rp (pkt.line cfg.blkSize) = none →
          after.cache.tags = s.cache.tags ∧
            ∀ out, s.cache.fillStage rp cfg mshr pkt tick = .ok out →
              out.1 = some .temp)
  | _ => True

/-! ### Every clear flag has its reason -/

variable {e : CacheEvent} {s : GrantState R}

theorem mem_grants_of_ne (s : GrantState R) (id : Nat) (other : Cache.responds e ≠ some id)
    (mem : id ∈ s.granted) : id ∈ s.grants cfg e := by
  unfold grants
  split
  next responds =>
    refine List.mem_filter.mpr ⟨mem, decide_eq_true fun same => other ?_⟩
    rw [responds, same]
  next =>
    split
    · split
      · exact List.mem_cons_of_mem _ mem
      · exact mem
    · exact mem

theorem mem_grants_of_grantee {entry : MshrEntry} (hit : s.cache.grantee cfg e = some entry)
    (allocates : entry.mshr.allocOnFill = true) : entry.id ∈ s.grants cfg e := by
  obtain ⟨_, other⟩ := Cache.grantee_mem hit
  simp [grants, other, hit, allocates]

theorem mshrChange_backed (enabled : cfg.nofillEn = true) {list : List MshrEntry}
    (change : Cache.MshrChange cfg s.cache e list order) (backed : s.Backed)
    (observed : s.Observed rp cfg e) :
    ∀ entry ∈ list, entry.mshr.targets.Backed (entry.id ∈ s.grants cfg e) := by
  -- an entry that is not answered keeps its grant, and so its reason
  have kept : ∀ entry ∈ s.cache.mshrs, Cache.responds e ≠ some entry.id →
      entry.mshr.targets.Backed (entry.id ∈ s.grants cfg e) :=
    fun entry mem other =>
      (backed entry mem).mono (mem_grants_of_ne cfg s entry.id other)
  intro entry mem
  cases change.entries entry mem with
  | untouched _ _ waits other => exact kept entry waits other
  | missed _ _ _ pkt clearNoFill _ cleared =>
    refine Mshr.allocateMissBuffer_backed cfg.blkSize pkt s.cache.order _ clearNoFill ?_
    intro clear
    rw [cleared clear] at enabled
    cases enabled
  | fetched =>
    exact Mshr.allocateMissBuffer_backed cfg.blkSize _ s.cache.order _ true fun _ => rfl
  | coalesced _ _ _ old _ waits _ added =>
    exact Mshr.allocateTarget_backed added (kept old waits (by simp [Cache.responds]))
  | sent _ _ old _ waits =>
    exact kept old waits (by simp [Cache.responds])
  | granted _ old waits hit quiet =>
    exact TargetList.grant_backed (kept old waits (by simp [quiet]))
      (mem_grants_of_grantee cfg hit)
  | retired _ _ _ _ _ _ _ _ left mshr _ _ _ promoted =>
    exact Mshr.promoteDeferredTargets_backed left mshr promoted
  | squashed old _ _ found popped =>
    refine Mshr.forceDeallocateTarget_backed popped ?_
    intro front rest targets more clear
    refine (observed old front rest found targets more clear).imp_left ?_
    exact mem_grants_of_ne cfg s old.id (by simp [Cache.responds])
  | snooped _ _ old _ waits _ snoop =>
    exact Mshr.handleSnoop_backed snoop (kept old waits (by simp [Cache.responds]))
  | pended _ old waits => exact kept old waits (by simp [Cache.responds])

theorem step_backed (enabled : cfg.nofillEn = true) (s : GrantState R) (e : CacheEvent)
    (t : GrantState R) (backed : s.Backed) (observed : s.Observed rp cfg e)
    (taken : s.step rp cfg e = some t) : t.Backed := by
  obtain ⟨after, stepped, rfl⟩ := Option.map_eq_some_iff.mp taken
  obtain ⟨_, handled⟩ := Cache.step_some_iff.mp stepped
  have change := Cache.handle_mshrs handled
  exact mshrChange_backed rp cfg enabled change backed observed

/-! ### The response of a denied MSHR -/

variable {mshr : Mshr}

theorem Denied.mayNotFill {id : Nat} (denied : s.Denied id pkt mshr) (backed : s.Backed) :
    mshr.mayNotFill = true := by
  by_contra clear
  have answered := denied.answered
  simp only [Cache.answered, Option.bind_eq_some_iff] at answered
  obtain ⟨entry, found, same⟩ := answered
  obtain ⟨mem, rfl⟩ := Cache.findId_mem found
  split at same
  · cases same
    rcases backed entry mem (Bool.eq_false_iff.mpr clear) with granted | asks
    · exact denied.ungranted granted
    · obtain ⟨t, waits, asks⟩ := List.any_eq_true.mp asks
      have refuses := denied.noFill t (List.mem_append_left _ waits)
      rw [asks] at refuses
      cases refuses
  · cases same

/-- Without a block of its own the line of a denied response is not allocated. -/
theorem Denied.unallocated {id : Nat} (denied : s.Denied id pkt mshr) (backed : s.Backed)
    (unwanted : ¬ (cfg.hasWriteAllocator = true ∧ mshr.wasWholeLineWrite = true ∧
      s.cache.writeAllocator.allocate = true)) : s.cache.allocates cfg mshr pkt = false := by
  unfold Cache.allocates
  split
  next whole =>
    simp only [Bool.and_eq_true] at whole
    exact Bool.eq_false_iff.mpr fun wants => unwanted ⟨whole.1, whole.2, wants⟩
  next => simp [Cache.allowFill, denied.mayNotFill backed]

theorem observed_uninstalled (s : GrantState R) (e : CacheEvent) (backed : s.Backed)
    (observed : s.Observed rp cfg e) : s.Uninstalled rp cfg e := by
  cases e with
  | recvTimingResp _ pkt =>
    intro mshr _ denied taken
    obtain ⟨next, stepped, rfl⟩ := Option.map_eq_some_iff.mp taken
    obtain ⟨_, handled⟩ := Cache.step_some_iff.mp stepped
    obtain ⟨⟨_, _⟩, ret, same⟩ := Outcomes.map_ok_iff.mp handled
    cases same
    obtain ⟨r⟩ := Cache.recvTimingResp_ok ret
    have mine : r.mshr = mshr := Option.some.inj (r.answered.symm.trans denied.answered)
    have fills := mine ▸ r.fills
    -- the fill has no permission, so it takes no block but the one the line has
    obtain ⟨filled, block⟩ := Cache.fillStage_unallocated denied.fills
      (fun absent => denied.unallocated cfg backed (observed mshr denied absent)) fills
    have tags := filled.trans r.tags
    refine ⟨tags.own, fun place different => tags.others place ?_, fun absent => ⟨?_, ?_⟩⟩
    · rw [block]
      cases found : s.cache.tags.findBlock rp (pkt.line cfg.blkSize) with
      | none => simp
      | some =>
        rw [found] at different
        simpa using different
    · -- without such a block it is the temporary one, which is none of the tags
      refine tags.eq_of_outside fun place => ?_
      rw [block, absent]
      simp
    · intro _ again
      rw [fills] at again
      cases again
      rw [block, absent]
      rfl
  | _ => trivial

/-- In every run whose steps meet `Observed`, no response of an MSHR with no-fill
targets only brings a line into the tag array or takes one out of it. -/
theorem denied_response_installs_nothing (enabled : cfg.nofillEn = true) (repl : R)
    (events : List CacheEvent)
    (along : Runs.Along (step rp cfg) (Observed rp cfg) (start repl) events) :
    Runs.Along (step rp cfg) (Uninstalled rp cfg) (start repl) events :=
  Runs.along_of_invariant (step_backed rp cfg enabled)
    (observed_uninstalled rp cfg) (start repl) events
    (fun _ mem => absurd mem List.not_mem_nil) along

/-- A speculative load misses and its data comes back. -/
def noFillMiss : List CacheEvent :=
  [.recvTimingReq (Packet.noFillLoad 0) 0 fun _ => false,
   .sendMSHRQueuePacket 0 false fun _ => false,
   .recvTimingResp 0 { Packet.noFillLoad 0 with cmd := .readResp, size := 64 } 1
     fun _ => false]

theorem noFillMiss_installs_nothing :
    Runs.Along (step oneBlock (.guarded 1)) (Uninstalled oneBlock (.guarded 1)) (start ())
      noFillMiss := by
  refine denied_response_installs_nothing oneBlock (.guarded 1) rfl () noFillMiss ?_
  refine Runs.along_cons rfl trivial (Runs.along_cons rfl trivial ?_)
  refine Runs.along_cons rfl ?_ trivial
  intro _ _ _ wants
  exact absurd wants.1 (by decide)

/-- A history-buffer fetch opens an MSHR and a speculative read joins it. The
fetch is dropped, since a cache above has the line, and the read is sent. -/
def squashedFetch : List CacheEvent :=
  [.issuePrefetch ⟨0, false, 0⟩,
   .recvTimingReq Packet.noFillRead 0 fun _ => false,
   .squashPrefetch 0,
   .sendMSHRQueuePacket 0 false fun _ => false,
   .recvTimingResp 0 { Packet.noFillRead with cmd := .readResp } 1 fun _ => false]

/-- The flag the fetch left behind lets the read fill the line. -/
theorem squashedFetch_installs :
    ¬ Runs.Along (step oneBlock (.guarded 2)) (Uninstalled oneBlock (.guarded 2)) (start ())
      squashedFetch := by
  intro kept
  have last := kept.2 _ rfl |>.2 _ rfl |>.2 _ rfl |>.2 _ rfl |>.1
  obtain ⟨own, _⟩ := last _ _ ⟨rfl, rfl, by decide, by decide⟩ rfl
  exact absurd (own ⟨0, 0⟩ rfl).1 (by decide)

end GrantState

end RasCache.Mem
