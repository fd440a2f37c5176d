import RasCache.Mem.CallTrace

/-!
# A cache and its CPU-side port

A cache turns requests away while one of its queues is full or an MSHR takes no
more targets. `PortedCache` runs the cache together with the blocked state, whose
bits are set and cleared by the calls of each event. `blocked_exact` says that the
bits, `noTargetMSHR` and the port always agree with the queues. It is left out
that a prefetch of a cache above joins an MSHR: the assertion against it is
commented out in `MSHR::allocateTarget`, and the squash of such a prefetch can free
the MSHR that `noTargetMSHR` points to.
-/
namespace RasCache.Mem

open Outcomes

variable {R : Type}

/-! ### Targets that a squash leaves alone -/

variable {pkt : Packet}

namespace Mshr

/-- A target waits that is no prefetch. -/
def Held (mshr : Mshr) : Prop := ∃ t ∈ mshr.waiting, t.pkt.cmd ≠ .hardPFReq

variable {after mshr : Mshr} {before : Mshr}

theorem Held.of_subset (held : before.Held) (more : ∀ t ∈ before.waiting, t ∈ after.waiting) :
    after.Held := by
  obtain ⟨t, waits, demand⟩ := held
  exact ⟨t, more t waits, demand⟩

theorem Held.of_lists (held : before.Held) (targets : after.targets.list = before.targets.list)
    (deferred : after.deferredTargets.list = before.deferredTargets.list) : after.Held := by
  refine held.of_subset fun t waits => ?_
  unfold waiting at waits ⊢
  rw [targets, deferred]
  exact waits

theorem replaceUpgrade_demand (demand : pkt.cmd ≠ .hardPFReq) :
    (replaceUpgrade pkt).cmd ≠ .hardPFReq := by
  unfold replaceUpgrade
  split
  · exact MemCmd.noConfusion
  · exact MemCmd.noConfusion
  · exact MemCmd.noConfusion
  · exact demand

/-- The request that joins stays, whatever becomes of an upgrade. -/
theorem held_of_added {order : Nat} {allocOnFill : Bool} (demand : pkt.cmd ≠ .hardPFReq)
    (added : mshr.allocateTarget pkt order allocOnFill = some after) : after.Held := by
  cases allocateTarget_cases added with
  | deferred =>
    refine ⟨_, List.mem_append_right _ (List.mem_append_right _ (List.mem_singleton_self _)), ?_⟩
    dsimp only
    split
    · exact replaceUpgrade_demand demand
    · exact demand
  | joined =>
    exact ⟨_, List.mem_append_left _ (List.mem_append_right _ (List.mem_singleton_self _)), demand⟩

theorem Held.added (held : mshr.Held) (pkt : Packet) (order : Nat) (allocOnFill : Bool)
    (added : mshr.allocateTarget pkt order allocOnFill = some after) : after.Held := by
  cases allocateTarget_cases added with
  | deferred =>
    exact held.of_subset fun t => ((List.sublist_append_left _ _).append_left _).mem
  | joined =>
    exact held.of_subset fun t => ((List.sublist_append_left _ _).append_right _).mem

theorem replaceUpgrades_demand {list : TargetList} {t : Target} (waits : t ∈ list.list)
    (demand : t.pkt.cmd ≠ .hardPFReq) :
    ∃ u ∈ list.replaceUpgrades.list, u.pkt.cmd ≠ .hardPFReq := by
  unfold TargetList.replaceUpgrades
  split
  · exact ⟨_, List.mem_map_of_mem waits, replaceUpgrade_demand demand⟩
  · exact ⟨t, waits, demand⟩

theorem Held.replacedDeferred (held : mshr.Held) :
    ({ mshr with deferredTargets := mshr.deferredTargets.replaceUpgrades } : Mshr).Held := by
  obtain ⟨t, waits, demand⟩ := held
  rcases List.mem_append.mp waits with targets | deferred
  · exact ⟨t, List.mem_append_left _ targets, demand⟩
  · obtain ⟨u, stays, demand⟩ := replaceUpgrades_demand deferred demand
    exact ⟨u, List.mem_append_right _ stays, demand⟩

theorem Held.replacedTargets (held : mshr.Held) :
    ({ mshr with targets := mshr.targets.replaceUpgrades } : Mshr).Held := by
  obtain ⟨t, waits, demand⟩ := held
  rcases List.mem_append.mp waits with targets | deferred
  · obtain ⟨u, stays, demand⟩ := replaceUpgrades_demand targets demand
    exact ⟨u, List.mem_append_left _ stays, demand⟩
  · exact ⟨t, List.mem_append_right _ deferred, demand⟩

theorem Held.snooped (held : mshr.Held) (pkt : Packet) (order : Nat) (result : SnoopResult)
    (handled : mshr.handleSnoop pkt order = some result) : result.mshr.Held := by
  have start : (mshr.withoutUpgrades pkt).Held := by
    rcases withoutUpgrades_cases mshr pkt with same | replaced
    · rw [same]
      exact held
    · rw [replaced]
      exact held.replacedDeferred
  cases handleSnoop_cases handled with
  | replaced => exact held.replacedTargets.replacedDeferred
  | ignored => exact held
  | due => exact start
  | saved =>
    unfold snoopInService saveSnoop
    dsimp only
    split
    · -- the snoop comes behind the other targets
      exact start.of_subset fun t => ((List.sublist_append_left _ _).append_right _).mem
    · exact start.of_lists rfl rfl

/-- A squash takes a prefetch from the front, so the MSHR stays. -/
theorem Held.squashed (held : mshr.Held) (front : Target)
    (first : mshr.targets.list.head? = some front) (prefetch : front.pkt.cmd = .hardPFReq)
    (popped : Option Mshr) (pops : mshr.forceDeallocateTarget = some popped) :
    ∃ after, popped = some after ∧ after.Held := by
  obtain ⟨t, waits, demand⟩ := held
  have other : t ≠ front := by
    rintro rfl
    exact demand prefetch
  unfold forceDeallocateTarget at pops
  split at pops
  · cases pops
  next head rest shape =>
    rw [shape] at first
    obtain rfl : head = front := Option.some.inj first
    have stays : t ∈ rest ++ mshr.deferredTargets.list := by
      unfold waiting at waits
      rw [shape, List.cons_append] at waits
      rcases List.mem_cons.mp waits with same | behind
      · exact absurd same other
      · exact behind
    have pops := Option.some.inj pops
    split at pops
    next none =>
      -- the deferred targets move up
      obtain rfl : rest = [] := by simpa using none
      have some_ : mshr.deferredTargets.list ≠ [] := List.ne_nil_of_mem stays
      cases promoted : promoteDeferredTargets
          { mshr with targets := { mshr.targets with list := [] } } with
      | none => simp [promoteDeferredTargets, waiting, some_] at promoted
      | some after =>
        refine ⟨after, pops.symm.trans promoted, t, ?_, demand⟩
        rw [(promoteDeferredTargets_rebuilt promoted).waiting]
        exact stays
    next => exact ⟨_, pops.symm, t, stays, demand⟩

end Mshr

namespace Cache

variable (rp : ReplacementPolicy R) (cfg : CacheParams)

/-- The MSHR is allocated and cannot be squashed. -/
def Pinned (cache : Cache R) (id : Nat) : Prop :=
  ∃ entry ∈ cache.mshrs, entry.id = id ∧ entry.mshr.Held

variable {cache after : Cache R} {id : Nat}

theorem Pinned.mem_ids (pinned : cache.Pinned id) : id ∈ cache.ids := by
  obtain ⟨_, mem, rfl, _⟩ := pinned
  exact List.mem_map_of_mem mem

theorem held_rule : StayRule Mshr.Held where
  added := fun _ _ pkt _ _ held added => held.added pkt _ _ added
  sent := fun _ _ _ held => held.of_lists rfl rfl
  granted := fun _ held => held.of_lists (Mshr.updateMayNotFill_lists _ _) rfl
  snooped := fun _ pkt _ result held snooped => held.snooped pkt _ result snooped
  pended := fun _ _ held => held.of_lists rfl rfl

/-- A squash takes one target from the MSHR and cannot free it. -/
theorem squashed_pinned (ordered : cache.Ordered) {entry : MshrEntry}
    (mem : entry ∈ cache.mshrs) (held : entry.mshr.Held)
    (ret : cache.squashPrefetch entry.id = .ok after) : after.Pinned entry.id := by
  obtain ⟨_, found, ret⟩ := bind_ok_iff.mp ret
  obtain ⟨front, first, ret⟩ := bind_ok_iff.mp ret
  rw [orFail_ok_iff, ordered.findId entry mem] at found
  cases found
  split at ret
  · cases ret
  next squashes =>
    have prefetch : front.pkt.cmd = .hardPFReq := by
      rw [Bool.or_eq_true, not_or] at squashes
      simpa using squashes.2
    obtain ⟨popped, pops, ret⟩ := bind_ok_iff.mp ret
    obtain ⟨mshr, rfl, left⟩ := held.squashed front (orFail_ok_iff.mp first) prefetch popped
      (orFail_ok_iff.mp pops)
    cases ret
    exact ordered.stays_set entry mem held entry mem mshr fun _ => left

theorem Pinned.handled (pinned : cache.Pinned id) (ordered : cache.Ordered) (e : CacheEvent)
    (sent : Sent) (other : responds e ≠ some id)
    (handled : cache.handle rp cfg e = .ok (after, sent)) : after.Pinned id := by
  obtain ⟨entry, mem, rfl, held⟩ := pinned
  by_cases squashes : e = .squashPrefetch entry.id
  · subst squashes
    obtain ⟨_, ret, same⟩ := map_ok_iff.mp handled
    cases same
    exact squashed_pinned ordered mem held ret
  · have change := handle_mshrs handled
    exact held_rule.stays change ordered entry mem held other squashes

variable {tgtsPerMSHR : Nat} {sent : Sent}

theorem filled_pinned {tick : Nat} {above : Packet → Bool} (demand : pkt.cmd ≠ .hardPFReq)
    (ret : cache.recvTimingReq rp cfg above pkt tick = .ok (after, sent))
    (filled : Limited.filled rp cfg tgtsPerMSHR cache after pkt tick = some id) :
    after.Pinned id := by
  obtain ⟨entry, joins, rfl⟩ := Option.map_eq_some_iff.mp filled
  have joins := (Option.filter_eq_some_iff.mp joins).1
  have requested := recvTimingReq_requested ret
  generalize list : after.mshrs = mshrs at requested
  cases requested with
  | same alone =>
    rw [alone] at joins
    cases joins
  | opened _ _ alone =>
    rw [alone] at joins
    cases joins
  | joins _ mshr waits joined added =>
    rw [joined] at joins
    cases joins
    have stays := mem_setMshr entry.id mshr waits
    rw [if_pos rfl, ← list] at stays
    exact ⟨_, stays, rfl, Mshr.held_of_added demand added⟩

/-- The MSHR that takes no more targets is pinned, before and after an event. -/
theorem noTargetAfter_pinned {e : CacheEvent} (ordered : cache.Ordered)
    (demand : ∀ pkt tick above, e = .recvTimingReq pkt tick above → pkt.cmd ≠ .hardPFReq)
    (handled : cache.handle rp cfg e = .ok (after, sent)) {target : Option Nat}
    (pinned : ∀ id, target = some id → cache.Pinned id)
    (points : cache.noTargetAfter rp cfg tgtsPerMSHR e after target = some id) :
    after.Pinned id := by
  have stays (other : responds e ≠ some id) (old : target = some id) : after.Pinned id :=
    (pinned id old).handled rp cfg ordered e sent other handled
  cases e with
  | recvTimingReq pkt tick above =>
    -- a request that fills the last target points at its MSHR, else nothing moved
    rcases Option.or_eq_some_iff.mp points with filled | ⟨_, old⟩
    · exact filled_pinned rp cfg (demand pkt tick above rfl) handled filled
    · exact stays (fun response => by cases response) old
  | recvTimingResp =>
    unfold noTargetAfter at points
    dsimp only at points
    split at points
    · cases points
    -- the response of the MSHR itself clears the pointer
    next different =>
      refine stays (fun response => ?_) points
      cases response
      exact different points
  | _ => exact stays (fun response => by cases response) points

end Cache

/-! ### The cache behind its port -/

structure PortedCache (R : Type) where
  cache : Cache R
  queues : Queues := {}

/-- The handling of an event stops the simulation. -/
inductive PortFailure where
  | cache (why : Failure)
  | queues (why : QueueFailure)
deriving Repr, DecidableEq

inductive PortedEvent where
  | cache (e : CacheEvent)
  /-- The retry that was scheduled is sent. -/
  | sendRetry

namespace PortedCache

variable (rp : ReplacementPolicy R) (cfg : CacheParams) (sizes : QueueParams)

/-- The cache handles the event, with the calls on its queues. -/
def work (s : PortedCache R) (e : CacheEvent) : Except PortFailure (PortedCache R) := do
  let (cache, _) ← (s.cache.handle rp cfg e).mapError .cache
  let queues ← (s.queues.calls sizes
    (s.cache.calls rp cfg sizes.tgtsPerMSHR e cache)).mapError .queues
  .ok { cache, queues }

/-- A request must get through the port, and a prefetch is issued only by a cache
that is not blocked and has MSHRs to spare. -/
def handle (s : PortedCache R) : PortedEvent → Except PortFailure (PortedCache R)
  | .cache (.recvTimingReq pkt tick above) =>
    let (port, taken) := s.queues.port.tryTiming
    let s := { s with queues := { s.queues with port } }
    if taken then s.work rp cfg sizes (.recvTimingReq pkt tick above) else .ok s
  | .cache (.issuePrefetch line) =>
    if s.queues.canPrefetch sizes && !s.queues.isBlocked then
      s.work rp cfg sizes (.issuePrefetch line)
    else .ok s
  | .cache e => s.work rp cfg sizes e
  | .sendRetry => .ok { s with queues := { s.queues with port := s.queues.port.processSendRetry } }

def step (s : PortedCache R) (e : PortedEvent) : Option (PortedCache R) :=
  (s.handle rp cfg sizes e).toOption

def start (repl : R) : PortedCache R := { cache := .empty repl }

/-- No prefetch comes from above. -/
def PrefetchFree : PortedEvent → Prop
  | .cache (.recvTimingReq pkt _ _) => pkt.cmd ≠ .hardPFReq
  | _ => True

instance : DecidablePred PrefetchFree := fun e =>
  match e with
  | .cache (.recvTimingReq pkt _ _) => inferInstanceAs (Decidable (pkt.cmd ≠ .hardPFReq))
  | .cache (.recvTimingResp _ _ _ _) | .cache (.sendMSHRQueuePacket _ _ _)
  | .cache (.sendWriteQueuePacket _) | .cache (.recvPfAck _) | .cache (.issuePrefetch _)
  | .cache (.squashPrefetch _) | .cache (.recvTimingSnoopReq _ _)
  | .cache (.setDownstreamPending _ _) | .sendRetry => isTrue trivial

/-- What holds between events. -/
structure Invariant (s : PortedCache R) : Prop where
  exact_ : s.queues.Exact sizes
  entries : s.queues.toQueueEntries = s.cache.entries s.queues.noTargetMSHR
  ordered : s.cache.Ordered
  pinned : ∀ id, s.queues.noTargetMSHR = some id → s.cache.Pinned id

variable {rp cfg sizes}

variable {s : PortedCache R}

theorem Invariant.port (inv : s.Invariant sizes) (port : CpuSidePort)
    (blocked : port.blocked = s.queues.port.blocked) (kept : port.Kept) :
    ({ s with queues := { s.queues with port } } : PortedCache R).Invariant sizes where
  exact_ := ⟨⟨inv.exact_.shows.mask, blocked.trans inv.exact_.shows.port, kept⟩, inv.exact_.within⟩
  entries := inv.entries
  ordered := inv.ordered
  pinned := inv.pinned

/-- An event fails for want of a free entry or in the cache itself, and never in
the port. -/
theorem Invariant.work (inv : s.Invariant sizes) (e : CacheEvent) :
    s.work rp cfg sizes e ≠ .error (.queues .portAssertion) ∧ (PrefetchFree (.cache e) →
        ∀ t, s.work rp cfg sizes e = .ok t → t.Invariant sizes) := by
  unfold PortedCache.work
  cases handled : s.cache.handle rp cfg e with
  | error =>
    refine ⟨fun failed => ?_, fun _ t ret => ?_⟩
    · cases failed
    · cases ret
  | ok out =>
    obtain ⟨after, sent⟩ := out
    have account := Cache.calls_account rp cfg sizes.tgtsPerMSHR s.queues.noTargetMSHR handled
    -- the calls the cache makes are those the queues account for
    have called := inv.exact_.calls (s.cache.calls rp cfg sizes.tgtsPerMSHR e after)
    rw [inv.entries, account] at called
    rcases called with failed | ⟨queues, ret, moved, exact_⟩
    · simp only [Except.mapError, failed, bind, Except.bind]
      refine ⟨fun same => ?_, fun _ t ret => ?_⟩
      · cases same
      · cases ret
    · simp only [Except.mapError, ret, bind, Except.bind]
      refine ⟨fun same => ?_, fun free t same => ?_⟩
      · cases same
      · obtain rfl := Except.ok.inj same
        have target := congrArg QueueEntries.noTargetMSHR moved
        refine ⟨exact_, ?_, Cache.handle_ordered inv.ordered handled, fun id points => ?_⟩
        · exact moved.trans (congrArg after.entries target.symm)
        · refine Cache.noTargetAfter_pinned rp cfg
            inv.ordered (fun pkt tick above same => ?_) handled inv.pinned
            (target.symm.trans points)
          cases same
          exact free

theorem Invariant.handle (inv : s.Invariant sizes) (e : PortedEvent) :
    s.handle rp cfg sizes e ≠ .error (.queues .portAssertion) ∧ (PrefetchFree e →
        ∀ t, s.handle rp cfg sizes e = .ok t → t.Invariant sizes) := by
  -- nothing is asserted about the port where no queue changes
  have still (t : PortedCache R) (kept : t.Invariant sizes) :
      (.ok t : Except PortFailure (PortedCache R)) ≠ .error (.queues .portAssertion) ∧
        (PrefetchFree e →
          ∀ u, (.ok t : Except PortFailure (PortedCache R)) = .ok u → u.Invariant sizes) := by
    refine ⟨fun same => ?_, fun _ u same => ?_⟩
    · cases same
    · cases same
      exact kept
  cases e with
  | sendRetry =>
    obtain ⟨blocked, kept⟩ := inv.exact_.shows.kept.processSendRetry
    exact still _ (inv.port _ blocked kept)
  | cache e =>
    cases e with
    | recvTimingReq pkt tick above =>
      obtain ⟨blocked, kept⟩ := inv.exact_.shows.kept.tryTiming
      have tried := inv.port _ blocked kept
      simp only [PortedCache.handle]
      split
      · exact tried.work (.recvTimingReq pkt tick above)
      · exact still _ tried
    | issuePrefetch line =>
      simp only [PortedCache.handle]
      split
      · exact inv.work (.issuePrefetch line)
      · exact still s inv
    | _ => exact inv.work _

/-! ### The blocked state -/

/-- The blocked state of the cache is the one its queues call for. -/
structure Settled (sizes : QueueParams) (s : PortedCache R) : Prop where
  noMSHRs : s.queues.has .noMSHRs = decide (sizes.mshrs ≤ s.cache.mshrs.length)
  noWBBuffers : s.queues.has .noWBBuffers = decide (sizes.writeBuffers ≤ s.cache.writeBuffer.length)
  noTargets : s.queues.has .noTargets = s.queues.noTargetMSHR.isSome
  noTargetMSHR : ∀ id, s.queues.noTargetMSHR = some id → (s.cache.findId id).isSome = true
  port : s.queues.port.blocked = true ↔ ∃ cause, s.queues.has cause = true
  /-- The entries that clear a cause are outstanding. -/
  clears : ∀ cause, s.queues.has cause = true → s.queues.Clears sizes cause

theorem Invariant.settled (inv : s.Invariant sizes) (mshrs : 1 ≤ sizes.mshrs)
    (writes : 1 ≤ sizes.writeBuffers) : s.Settled sizes := by
  have has := inv.exact_.shows.has
  have bits (cause : BlockedCause) :
      s.queues.has cause = (s.cache.entries s.queues.noTargetMSHR).bits sizes cause := by
    rw [has, inv.entries]
    rfl
  refine ⟨?_, bits .noWBBuffers, bits .noTargets, fun id points => ?_, ?_, fun cause set => ?_⟩
  · rw [bits, QueueEntries.bits, QueueEntries.mshrsFull, Cache.entries, Cache.ids, List.length_map]
  · have mem := (inv.pinned id points).mem_ids
    cases found : s.cache.findId id with
    | none => exact absurd mem ((Cache.findId_isNone s.cache id).mp (by rw [found]; rfl))
    | some => rfl
  · rw [inv.exact_.shows.port, Queues.isBlocked, decide_eq_true_eq, inv.exact_.shows.mask, ne_eq,
      blockedMask_eq_zero, not_forall]
    simp only [has, Bool.not_eq_false]
  · -- each bit is cleared by the event that frees what it waits for
    cases cause with
    | noMSHRs => exact inv.exact_.clears_noMSHRs mshrs set
    | noWBBuffers => exact inv.exact_.clears_noWBBuffers writes set
    | noTargets =>
      rw [has, QueueEntries.bits, Option.isSome_iff_exists] at set
      obtain ⟨id, points⟩ := set
      refine inv.exact_.clears_noTargets id points ?_
      rw [congrArg QueueEntries.mshrs inv.entries]
      exact (inv.pinned id points).mem_ids

theorem start_invariant (repl : R) (mshrs : 1 ≤ sizes.mshrs) (writes : 1 ≤ sizes.writeBuffers) :
    (start repl).Invariant sizes := by
  have bits : ({} : QueueEntries).bits sizes = fun _ => false := by
    funext cause
    cases cause with
    | noMSHRs => exact decide_eq_false (Nat.not_le_of_gt mshrs)
    | noWBBuffers => exact decide_eq_false (Nat.not_le_of_gt writes)
    | noTargets => rfl
  refine ⟨⟨⟨?_, rfl, ⟨fun _ => rfl, fun retries => by cases retries⟩⟩, Nat.zero_le _⟩, rfl,
    Cache.empty_ordered repl, fun id points => by cases points⟩
  show 0 = blockedMask (({} : QueueEntries).bits sizes)
  rw [bits]
  rfl

/-- With at least one MSHR and one write buffer, and no prefetch from above, the
blocked state is right in every state that is reached, and no event that can come
next fails an assertion of the port. -/
theorem blocked_exact (rp : ReplacementPolicy R) (cfg : CacheParams) (sizes : QueueParams)
    (mshrs : 1 ≤ sizes.mshrs) (writes : 1 ≤ sizes.writeBuffers) (repl : R)
    (events : List PortedEvent) (free : ∀ e ∈ events, PrefetchFree e) (s : PortedCache R)
    (ran : Runs.run (step rp cfg sizes) (start repl) events = some s) : s.Settled sizes ∧
      ∀ e, s.handle rp cfg sizes e ≠ .error (.queues .portAssertion) := by
  have keeps (s : PortedCache R) (e : PortedEvent) (t : PortedCache R) (inv : s.Invariant sizes)
      (free : PrefetchFree e) (taken : s.step rp cfg sizes e = some t) :
      t.Invariant sizes :=
    (inv.handle e).2 free t (toOption_some_iff.mp taken)
  have inv : s.Invariant sizes :=
    Runs.run_invariant keeps (start repl) s events (start_invariant repl mshrs writes)
      (Runs.along_of_forall (start repl) events free) ran
  exact ⟨inv.settled mshrs writes, fun e => (inv.handle e).1⟩

/-- With room for one MSHR, the load of another line is turned away until the
response, and blocks the cache when it comes again. -/
def turnedAway : List PortedEvent :=
  [.cache (.recvTimingReq (.ofRequest {} .readReq 0 8) 0 fun _ => false),
   .cache (.recvTimingReq (.ofRequest {} .readReq 64 8) 1 fun _ => false),
   .cache (.sendMSHRQueuePacket 0 false fun _ => false),
   .cache (.recvTimingResp 0 (Packet.ofBlock {} .readResp 0 64) 2 fun _ => false), .sendRetry,
   .cache (.recvTimingReq (.ofRequest {} .readReq 64 8) 3 fun _ => false)]

theorem blocked_exact_turnedAway :
    ∃ s, Runs.run (step oneBlock (.guarded 2) { mshrs := 1, writeBuffers := 1, tgtsPerMSHR := 2 })
        (start ()) turnedAway = some s ∧
      s.queues.port.blocked = true ∧
      s.Settled { mshrs := 1, writeBuffers := 1, tgtsPerMSHR := 2 } := by
  have blocked : ((Runs.run (step oneBlock (.guarded 2)
      { mshrs := 1, writeBuffers := 1, tgtsPerMSHR := 2 }) (start ()) turnedAway).any fun s =>
        s.queues.port.blocked) = true := by
    decide
  obtain ⟨s, ran, blocked⟩ := (Option.any_eq_true _ _).mp blocked
  exact ⟨s, ran, blocked, (blocked_exact oneBlock (.guarded 2) _ (by decide) (by decide) ()
    turnedAway (by decide) s ran).1⟩

/-- A requestor that was turned away is not forgotten: its retry is on the way, or
the cache is blocked for a cause that outstanding entries clear, and it is not asked
to try again before they have. -/
theorem refused_is_retried (mshrs : 1 ≤ sizes.mshrs) (writes : 1 ≤ sizes.writeBuffers) (repl : R)
    {events : List PortedEvent} (free : ∀ e ∈ events, PrefetchFree e)
    (ran : Runs.run (step rp cfg sizes) (start repl) events = some s) :
    (s.queues.port.mustSendRetry = true → s.queues.port.sendRetryScheduled = true ∨
        ∃ cause, s.queues.has cause = true ∧ s.queues.Clears sizes cause) ∧
      ∀ cause, s.queues.has cause = true → s.queues.port.sendRetryScheduled = false := by
  have inv : s.Invariant sizes :=
    Runs.run_invariant (fun s e t inv free taken =>
      (inv.handle e).2 free t (toOption_some_iff.mp taken)) (start repl) s events
      (start_invariant repl mshrs writes) (Runs.along_of_forall (start repl) events free) ran
  have settled := inv.settled mshrs writes
  have kept := inv.exact_.shows.kept
  refine ⟨fun owed => ?_, fun cause set => kept.quiet (settled.port.mpr ⟨cause, set⟩)⟩
  rcases kept.waits owed with blocked | scheduled
  · obtain ⟨cause, set⟩ := settled.port.mp blocked
    exact .inr ⟨cause, set, settled.clears cause set⟩
  · exact .inl scheduled

theorem refused_is_retried_turnedAway :
    ∃ s, Runs.run (step oneBlock (.guarded 2) { mshrs := 1, writeBuffers := 1, tgtsPerMSHR := 2 })
        (start ()) (turnedAway.take 2) = some s ∧
      ∃ cause, s.queues.Clears { mshrs := 1, writeBuffers := 1, tgtsPerMSHR := 2 } cause := by
  have owed : ((Runs.run (step oneBlock (.guarded 2)
      { mshrs := 1, writeBuffers := 1, tgtsPerMSHR := 2 }) (start ()) (turnedAway.take 2)).any
        fun s => s.queues.port.mustSendRetry && !s.queues.port.sendRetryScheduled) = true := by
    decide
  obtain ⟨s, ran, owed⟩ := (Option.any_eq_true _ _).mp owed
  simp only [Bool.and_eq_true, Bool.not_eq_true'] at owed
  have retried := (refused_is_retried (by decide) (by decide) () (by decide) ran).1 owed.1
  rw [owed.2] at retried
  obtain ⟨cause, _, clears⟩ := retried.resolve_left (by decide)
  exact ⟨s, ran, cause, clears⟩

/-- Two prefetches of a cache above share an MSHR, and both are squashed. -/
def squashedJoin : List PortedEvent :=
  [.cache (.recvTimingReq (.ofBlock {} .hardPFReq 0 64) 0 fun _ => false),
   .cache (.recvTimingReq (.ofBlock {} .hardPFReq 0 64) 1 fun _ => false),
   .cache (.squashPrefetch 0), .cache (.squashPrefetch 0)]

/-- A queue of size zero is full with its bit clear, and the cache of `squashedJoin`
is left blocked with nothing outstanding. -/
theorem blocked_inexact :
    ¬ (start () : PortedCache Unit).Settled { mshrs := 0, writeBuffers := 1, tgtsPerMSHR := 2 } ∧
    ¬ (start () : PortedCache Unit).Settled { mshrs := 1, writeBuffers := 0, tgtsPerMSHR := 2 } ∧
    ∃ s, Runs.run (step oneBlock (.guarded 2) { mshrs := 2, writeBuffers := 2, tgtsPerMSHR := 2 })
        (start ()) squashedJoin = some s ∧
      s.queues.port.blocked = true ∧ s.queues.noTargetMSHR = some 0 ∧ s.cache.mshrs = [] ∧
      s.cache.writeBuffer = [] ∧
      ¬ s.Settled { mshrs := 2, writeBuffers := 2, tgtsPerMSHR := 2 } := by
  refine ⟨fun settled => ?_, fun settled => ?_, ?_⟩
  · exact absurd settled.noMSHRs (by decide)
  · exact absurd settled.noWBBuffers (by decide)
  · have left : ((Runs.run (step oneBlock (.guarded 2)
        { mshrs := 2, writeBuffers := 2, tgtsPerMSHR := 2 }) (start ()) squashedJoin).any fun s =>
          s.queues.port.blocked && decide (s.queues.noTargetMSHR = some 0) &&
            decide (s.cache.mshrs = []) && decide (s.cache.writeBuffer = [])) = true := by
      decide
    obtain ⟨s, ran, left⟩ := (Option.any_eq_true _ _).mp left
    simp only [Bool.and_eq_true, decide_eq_true_eq] at left
    obtain ⟨⟨⟨blocked, points⟩, mshrs⟩, writes⟩ := left
    refine ⟨s, ran, blocked, points, mshrs, writes, fun settled => ?_⟩
    have found := settled.noTargetMSHR 0 points
    rw [Cache.findId, mshrs] at found
    cases found

end PortedCache

end RasCache.Mem
