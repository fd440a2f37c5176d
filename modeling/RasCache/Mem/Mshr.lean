import RasCache.Mem.Packet

/-!
# Miss status holding registers

Model of `MSHR` and `MSHR::TargetList` (`mem/cache/mshr.hh`, `mem/cache/mshr.cc`)
and of `MSHRQueue::forceDeallocateTarget`. The summary flags of a target list
are kept apart from the list, since the source updates them incrementally and
rebuilds them only at some of the places that change the list.
-/
namespace RasCache.Mem

inductive Source where
  | fromCPU
  | fromSnoop
  | fromPrefetcher
deriving Repr, DecidableEq

/-- `order` is the cache's running counter, so it names the target. -/
structure Target where
  pkt : Packet
  order : Nat
  source : Source
  allocOnFill : Bool
deriving Repr, DecidableEq

structure TargetFlags where
  needsWritable : Bool := false
  hasUpgrade : Bool := false
  allocOnFill : Bool := false
  mayNotFill : Bool := true
  demandFetch : Bool := false
  hasFromCache : Bool := false
  canMergeWrites : Bool := true
  writesBitmap : List Bool
deriving Repr, DecidableEq

namespace TargetFlags

def reset (blkSize : Nat) : TargetFlags where
  writesBitmap := List.replicate blkSize false

def isWholeLineWrite (flags : TargetFlags) : Bool := flags.writesBitmap.all id

/-- `no_merge_flags` of `updateWriteFlags`. -/
def compatWrite (flags : RequestFlags) : Bool :=
  !(flags.uncacheable || flags.strictOrder || flags.privileged || flags.llsc ||
    flags.memSwap || flags.memSwapCond || flags.secure)

/-- `firstWrite` is the source's `empty()`: true when the target is being added
to an empty list, never while the flags of a list are rebuilt. -/
def updateWriteFlags (flags : TargetFlags) (blkSize : Nat) (firstWrite : Bool) (pkt : Packet) :
    TargetFlags :=
  if flags.isWholeLineWrite then flags
  else if flags.canMergeWrites then
    if !pkt.isWrite then { flags with canMergeWrites := false }
    else
      let compat := compatWrite pkt.req.flags
      let offset := pkt.getOffset blkSize
      let bitmap :=
        if firstWrite || compat then
          flags.writesBitmap.mapIdx fun i written =>
            written || (decide (offset ≤ i) && decide (i < offset + pkt.size))
        else flags.writesBitmap
      { flags with writesBitmap := bitmap, canMergeWrites := compat }
  else flags

def updateFlags (flags : TargetFlags) (blkSize : Nat) (firstWrite : Bool) (pkt : Packet)
    (source : Source) (allocOnFill : Bool) : TargetFlags :=
  if source = .fromSnoop then flags
  else
    let flags :=
      { flags with
        needsWritable := flags.needsWritable || pkt.needsWritable
        hasUpgrade := flags.hasUpgrade || pkt.isUpgrade || pkt.cmd == .storeCondReq
        allocOnFill := flags.allocOnFill || allocOnFill
        mayNotFill := flags.mayNotFill && pkt.mayNotFill
        demandFetch := flags.demandFetch || pkt.isDemandFetch }
    if source = .fromPrefetcher then flags
    else
      updateWriteFlags { flags with hasFromCache := flags.hasFromCache || pkt.fromCache }
        blkSize firstWrite pkt

/-- The flags rebuilt from a list of targets. -/
def populateFlags (blkSize : Nat) (targets : List Target) : TargetFlags :=
  targets.foldl (fun flags t => flags.updateFlags blkSize false t.pkt t.source t.allocOnFill)
    (reset blkSize)

variable (flags : TargetFlags) (blkSize : Nat) (firstWrite : Bool) (pkt : Packet)

@[simp] theorem updateWriteFlags_mayNotFill :
    (flags.updateWriteFlags blkSize firstWrite pkt).mayNotFill = flags.mayNotFill := by
  unfold updateWriteFlags
  split_ifs <;> rfl

@[simp] theorem updateWriteFlags_allocOnFill :
    (flags.updateWriteFlags blkSize firstWrite pkt).allocOnFill = flags.allocOnFill := by
  unfold updateWriteFlags
  split_ifs <;> rfl

@[simp] theorem updateFlags_allocOnFill (source : Source) (allocOnFill : Bool) :
    (flags.updateFlags blkSize firstWrite pkt source allocOnFill).allocOnFill =
      (flags.allocOnFill || (decide (source ≠ .fromSnoop) && allocOnFill)) := by
  unfold updateFlags
  cases source <;> simp

/-- A snoop target has no say in the fill; every other target must be no-fill
for the list to stay no-fill. -/
@[simp] theorem updateFlags_mayNotFill (source : Source) (allocOnFill : Bool) :
    (flags.updateFlags blkSize firstWrite pkt source allocOnFill).mayNotFill =
      (flags.mayNotFill && (decide (source = .fromSnoop) || pkt.mayNotFill)) := by
  unfold updateFlags
  cases source <;> simp

end TargetFlags

/-- The target asks for its line to be filled. -/
def Target.mayFill (t : Target) : Bool := !decide (t.source = .fromSnoop) && !t.pkt.mayNotFill

theorem TargetFlags.populateFlags_mayNotFill (blkSize : Nat) (targets : List Target) :
    (populateFlags blkSize targets).mayNotFill = !targets.any Target.mayFill := by
  have fold : ∀ flags : TargetFlags, (targets.foldl
        (fun flags t => flags.updateFlags blkSize false t.pkt t.source t.allocOnFill)
        flags).mayNotFill = (flags.mayNotFill && !targets.any Target.mayFill) := by
    induction targets with
    | nil => simp
    | cons _ _ ih =>
      intro _
      rw [List.foldl_cons, ih, updateFlags_mayNotFill, List.any_cons]
      simp [Target.mayFill, Bool.and_assoc]
  exact fold (reset blkSize)

structure TargetList where
  list : List Target := []
  flags : TargetFlags
deriving Repr, DecidableEq

namespace TargetList

def init (blkSize : Nat) : TargetList where
  flags := .reset blkSize

def add (l : TargetList) (blkSize : Nat) (t : Target) : TargetList where
  list := l.list ++ [t]
  flags := l.flags.updateFlags blkSize l.list.isEmpty t.pkt t.source t.allocOnFill

/-- The list with its flags rebuilt. -/
def populated (blkSize : Nat) (targets : List Target) : TargetList where
  list := targets
  flags := .populateFlags blkSize targets

/-- Fill permission is granted only to a list that allocates on a fill. -/
def updateMayNotFill (l : TargetList) (mayNotFill : Bool) : TargetList :=
  if l.flags.allocOnFill then { l with flags := { l.flags with mayNotFill } } else l

end TargetList

structure Mshr where
  blkAddr : Addr
  blkSize : Nat
  isSecure : Bool
  domainID : DomainID
  uncacheable : Bool
  inService : Bool := false
  downstreamPending : Bool := false
  pendingModified : Bool := false
  postInvalidate : Bool := false
  postDowngrade : Bool := false
  wasWholeLineWrite : Bool := false
  isForward : Bool := false
  targets : TargetList
  deferredTargets : TargetList
deriving Repr, DecidableEq

/-- `replaceUpgrade`: the copy an upgrade relied on is gone. -/
def replaceUpgrade (pkt : Packet) : Packet :=
  match pkt.cmd with
  | .upgradeReq => { pkt with cmd := .readExReq }
  | .scUpgradeReq => { pkt with cmd := .scUpgradeFailReq }
  | .storeCondReq => { pkt with cmd := .storeCondFailReq }
  | _ => pkt

@[simp] theorem replaceUpgrade_mayNotFill (pkt : Packet) :
    (replaceUpgrade pkt).mayNotFill = pkt.mayNotFill := by
  unfold replaceUpgrade
  split <;> rfl

def TargetList.replaceUpgrades (l : TargetList) : TargetList :=
  if l.flags.hasUpgrade then
    { list := l.list.map fun t => { t with pkt := replaceUpgrade t.pkt }
      flags := { l.flags with hasUpgrade := false } }
  else l

namespace Mshr

def mayNotFill (mshr : Mshr) : Bool := mshr.targets.flags.mayNotFill

def allocOnFill (mshr : Mshr) : Bool := mshr.targets.flags.allocOnFill

def needsWritable (mshr : Mshr) : Bool := mshr.targets.flags.needsWritable

/-- Every target, deferred or not. -/
def waiting (mshr : Mshr) : List Target := mshr.targets.list ++ mshr.deferredTargets.list

def allocate (blkAddr : Addr) (blkSize : Nat) (pkt : Packet) (order : Nat) (allocOnFill : Bool) :
    Mshr where
  blkAddr := blkAddr
  blkSize := blkSize
  isSecure := pkt.isSecure
  domainID := pkt.domainID
  uncacheable := pkt.req.flags.uncacheable
  targets := (TargetList.init blkSize).add blkSize
    { pkt, order, allocOnFill
      source := if pkt.cmd = .hardPFReq then .fromPrefetcher else .fromCPU }
  deferredTargets := .init blkSize

def markInService (mshr : Mshr) (pendingModifiedResp : Bool) : Mshr :=
  { mshr with
    inService := true
    pendingModified := mshr.needsWritable || pendingModifiedResp
    postInvalidate := false
    postDowngrade := false
    wasWholeLineWrite := mshr.targets.flags.isWholeLineWrite }

/-- The test of `allocateTarget` for putting a target on the deferred list. -/
def defers (mshr : Mshr) (front : Target) (pkt : Packet) : Bool :=
  pkt.req.isCacheMaintenance || front.pkt.req.isCacheMaintenance ||
    !mshr.deferredTargets.list.isEmpty ||
    (mshr.inService &&
      (mshr.postInvalidate ||
        (pkt.needsWritable &&
          (!mshr.pendingModified || mshr.postDowngrade || mshr.isForward))))

/-- `none` without a front target, and when the domains differ (an assertion). -/
def allocateTarget (mshr : Mshr) (pkt : Packet) (order : Nat) (allocOnFill : Bool) :
    Option Mshr := do
  let front ← mshr.targets.list.head?
  if pkt.domainID ≠ mshr.domainID then none
  else if mshr.defers front pkt then
    let pkt := if mshr.inService && mshr.postInvalidate then replaceUpgrade pkt else pkt
    some { mshr with
      deferredTargets := mshr.deferredTargets.add mshr.blkSize
        { pkt, order, source := .fromCPU, allocOnFill } }
  else
    some { mshr with
      targets := mshr.targets.add mshr.blkSize { pkt, order, source := .fromCPU, allocOnFill } }

def updateMayNotFill (mshr : Mshr) (mayNotFill : Bool) : Mshr :=
  { mshr with targets := mshr.targets.updateMayNotFill mayNotFill }

/-! ### Snoops -/

/-- What `handleSnoop` leaves: the MSHR, the snooped packet with the flags it
sets on it, and whether this cache will respond. -/
structure SnoopResult where
  mshr : Mshr
  pkt : Packet
  willRespond : Bool
deriving Repr, DecidableEq

/-- The copy of the snooped packet kept as a target: when the cache will respond
it is a copy of the packet, otherwise a new packet for the block with a copy of
the request. -/
def snoopCopy (mshr : Mshr) (pkt : Packet) (willRespond : Bool) : Packet :=
  if willRespond then
    { Packet.ofRequest pkt.req pkt.cmd pkt.addr pkt.size with mayNotFill := pkt.mayNotFill }
  else Packet.ofBlock pkt.req.copy pkt.cmd pkt.addr mshr.blkSize

/-- The cache will answer the snoop once it has the data it waits for. -/
def willRespond (mshr : Mshr) (pkt : Packet) : Bool :=
  mshr.pendingModified && pkt.needsResponse && !pkt.isClean

/-- The snoop is saved as a target and replayed after the response. -/
def savesSnoop (mshr : Mshr) (pkt : Packet) : Bool := mshr.pendingModified || pkt.isInvalidate

/-- The snoop downgrades the copy this MSHR waits for. -/
def snoopDowngrades (pkt : Packet) : Bool := !pkt.needsWritable && !pkt.req.flags.uncacheable

def saveSnoop (mshr : Mshr) (pkt : Packet) (order : Nat) : Mshr :=
  if mshr.savesSnoop pkt then
    { mshr with
      targets := mshr.targets.add mshr.blkSize
        { pkt := mshr.snoopCopy pkt (mshr.willRespond pkt), order
          source := .fromSnoop, allocOnFill := false }
      postInvalidate := mshr.postInvalidate || pkt.needsWritable || pkt.isInvalidate }
  else mshr

/-- The flags `handleSnoop` sets on the snooped packet. -/
def markSnooped (mshr : Mshr) (pkt : Packet) : Packet :=
  let responds := mshr.savesSnoop pkt && mshr.willRespond pkt
  { pkt with
    cacheResponding := pkt.cacheResponding || responds
    responderHadWritable := pkt.responderHadWritable || responds
    satisfied := pkt.satisfied || (!responds && mshr.pendingModified && pkt.isClean)
    hasSharers := pkt.hasSharers || snoopDowngrades pkt }

/-- The part of `handleSnoop` for a snoop that comes after this MSHR's request. -/
def snoopInService (mshr : Mshr) (pkt : Packet) (order : Nat) : SnoopResult :=
  let saved := mshr.saveSnoop pkt order
  { mshr := { saved with postDowngrade := saved.postDowngrade || snoopDowngrades pkt }
    pkt := mshr.markSnooped pkt
    willRespond := mshr.willRespond pkt }

/-- `setSatisfied` asserts that the packet is not marked yet. -/
def marksAgain (mshr : Mshr) (pkt : Packet) : Bool :=
  mshr.pendingModified && pkt.isClean && pkt.satisfied

/-- `none` is the panic on a snoop whose `needsWritable` and `isInvalidate`
differ, a snoop in service without a front target, and a clean request that is
marked twice. -/
def handleSnoop (mshr : Mshr) (pkt : Packet) (order : Nat) : Option SnoopResult :=
  let invalidating := pkt.needsWritable || pkt.req.isCacheInvalidate
  if pkt.needsWritable != pkt.isInvalidate && !pkt.req.isCacheMaintenance then none
  else if !mshr.inService || (pkt.expressSnoop && mshr.downstreamPending) then
    if invalidating then
      some ⟨{ mshr with
        targets := mshr.targets.replaceUpgrades
        deferredTargets := mshr.deferredTargets.replaceUpgrades }, pkt, false⟩
    else some ⟨mshr, pkt, false⟩
  else
    let mshr :=
      if invalidating then { mshr with deferredTargets := mshr.deferredTargets.replaceUpgrades }
      else mshr
    match mshr.targets.list with
    | [] => none
    | front :: _ =>
      if mshr.postInvalidate || front.pkt.req.isCacheInvalidate then some ⟨mshr, pkt, true⟩
      else if mshr.marksAgain pkt then none
      else some (mshr.snoopInService pkt order)

/-! ### Servicing a response -/

/-- The targets a response leaves in place: behind the first one, those that are
not snoops, when the response came with an invalidation. -/
def leftBehind (cmd : MemCmd) (targets : List Target) : List Target :=
  if cmd = .readRespWithInvalidate then
    targets.tail.filter fun t => decide (t.source ≠ .fromSnoop)
  else []

/-- The targets a response services. -/
def serviced (cmd : MemCmd) (targets : List Target) : List Target :=
  if cmd = .readRespWithInvalidate then
    targets.take 1 ++ targets.tail.filter fun t => decide (t.source = .fromSnoop)
  else targets

/-- The assertions of `extractServiceableTargets` on the sources. -/
def extractable (cmd : MemCmd) (targets : List Target) : Bool :=
  cmd ≠ .readRespWithInvalidate ||
    match targets with
    | [] => false
    | first :: rest =>
      decide (first.source ≠ .fromSnoop) &&
        rest.all fun t => decide (t.source ≠ .fromPrefetcher)

def extractServiceableTargets (mshr : Mshr) (cmd : MemCmd) : Option (TargetList × Mshr) :=
  if extractable cmd mshr.targets.list then
    let ready :=
      if cmd = .readRespWithInvalidate then
        .populated mshr.blkSize (serviced cmd mshr.targets.list)
      else mshr.targets
    some (ready,
      { mshr with targets := .populated mshr.blkSize (leftBehind cmd mshr.targets.list) })
  else none

/-- How many deferred targets `promoteDeferredTargets` moves up. -/
def promotable (targets deferred : List Target) : Nat :=
  match deferred with
  | [] => 0
  | first :: _ =>
    if first.pkt.req.isCacheMaintenance then if targets.isEmpty then 1 else 0
    else (deferred.takeWhile fun t => !t.pkt.req.isCacheMaintenance).length

/-- `none` is the source's `false`: nothing waits any more. -/
def promoteDeferredTargets (mshr : Mshr) : Option Mshr :=
  if mshr.waiting.isEmpty then none
  else
    let n := promotable mshr.targets.list mshr.deferredTargets.list
    some { mshr with
      targets := .populated mshr.blkSize (mshr.targets.list ++ mshr.deferredTargets.list.take n)
      deferredTargets := .populated mshr.blkSize (mshr.deferredTargets.list.drop n) }

/-- The flags of `targets` are not rebuilt here, unlike in
`promoteDeferredTargets`. -/
def promoteIf (mshr : Mshr) (pred : Target → Bool) : Option Mshr :=
  if mshr.downstreamPending then none
  else
    some { mshr with
      targets := { mshr.targets with
        list := mshr.targets.list ++ mshr.deferredTargets.list.takeWhile pred }
      deferredTargets := .populated mshr.blkSize (mshr.deferredTargets.list.dropWhile pred) }

def promoteReadable (mshr : Mshr) : Option Mshr :=
  if !mshr.deferredTargets.list.isEmpty && !mshr.postInvalidate then
    mshr.promoteIf fun t => !t.pkt.req.isCacheInvalidate && !t.pkt.needsWritable
  else some mshr

def promoteWritable (mshr : Mshr) : Option Mshr :=
  match mshr.deferredTargets.list with
  | [] => some mshr
  | first :: _ =>
    if mshr.deferredTargets.flags.needsWritable && !(mshr.postInvalidate || mshr.postDowngrade) &&
        !first.pkt.req.isCacheInvalidate then
      if mshr.needsWritable then none
      else
        promoteIf
          { mshr with
            targets := { mshr.targets with
              flags := { mshr.targets.flags with needsWritable := true } } }
          fun t => !t.pkt.req.isCacheInvalidate
    else some mshr

/-- `MSHRQueue::forceDeallocateTarget`: the front target goes, the flags stay.
The inner `none` is the deallocation of the MSHR. -/
def forceDeallocateTarget (mshr : Mshr) : Option (Option Mshr) :=
  match mshr.targets.list with
  | [] => none
  | _ :: rest =>
    let popped := { mshr with targets := { mshr.targets with list := rest } }
    some (if rest.isEmpty then popped.promoteDeferredTargets else some popped)

/-! ### What the operations can do -/

/-- What `allocateTarget` can do: the target comes last in one of the lists. -/
inductive AddCase (mshr : Mshr) (pkt : Packet) (order : Nat) (allocOnFill : Bool) : Mshr → Prop
  | deferred (front : Target) (first : mshr.targets.list.head? = some front)
      (domain : pkt.domainID = mshr.domainID) (defers : mshr.defers front pkt = true) :
    AddCase mshr pkt order allocOnFill { mshr with
      deferredTargets := mshr.deferredTargets.add mshr.blkSize
        { pkt := if mshr.inService && mshr.postInvalidate then replaceUpgrade pkt else pkt
          order, source := .fromCPU, allocOnFill } }
  | joined (front : Target) (first : mshr.targets.list.head? = some front)
      (domain : pkt.domainID = mshr.domainID) (joins : mshr.defers front pkt = false) :
    AddCase mshr pkt order allocOnFill { mshr with
      targets := mshr.targets.add mshr.blkSize { pkt, order, source := .fromCPU, allocOnFill } }

variable {mshr : Mshr} {pkt : Packet} {after : Mshr} {cmd : MemCmd} {order : Nat}

theorem allocateTarget_cases {allocOnFill : Bool}
    (added : mshr.allocateTarget pkt order allocOnFill = some after) :
    AddCase mshr pkt order allocOnFill after := by
  obtain ⟨front, first, added⟩ := Option.bind_eq_some_iff.mp added
  dsimp only at added
  split at added
  · cases added
  next domain =>
    rw [ne_eq, not_not] at domain
    split at added <;> cases added
    next defers => exact .deferred front first domain defers
    next joins => exact .joined front first domain (eq_false_of_ne_true joins)

/-- The snoop comes after the request of the MSHR. -/
def comesLate (mshr : Mshr) (pkt : Packet) : Bool :=
  mshr.inService && !(pkt.expressSnoop && mshr.downstreamPending)

theorem inService_of_late (late : mshr.comesLate pkt = true) : mshr.inService = true :=
  (Bool.and_eq_true _ _ ▸ late).1

/-- The MSHR once a late snoop has taken the line from the deferred upgrades. -/
def withoutUpgrades (mshr : Mshr) (pkt : Packet) : Mshr :=
  if pkt.needsWritable || pkt.req.isCacheInvalidate then
    { mshr with deferredTargets := mshr.deferredTargets.replaceUpgrades }
  else mshr

theorem withoutUpgrades_cases (mshr : Mshr) (pkt : Packet) :
    mshr.withoutUpgrades pkt = mshr ∨ mshr.withoutUpgrades pkt =
      { mshr with deferredTargets := mshr.deferredTargets.replaceUpgrades } := by
  unfold withoutUpgrades
  split
  · exact .inr rfl
  · exact .inl rfl

@[simp] theorem withoutUpgrades_targets (mshr : Mshr) (pkt : Packet) :
    (mshr.withoutUpgrades pkt).targets = mshr.targets := by
  rcases withoutUpgrades_cases mshr pkt with same | replaced
  · rw [same]
  · rw [replaced]

@[simp] theorem withoutUpgrades_inService (mshr : Mshr) (pkt : Packet) :
    (mshr.withoutUpgrades pkt).inService = mshr.inService := by
  rcases withoutUpgrades_cases mshr pkt with same | replaced
  · rw [same]
  · rw [replaced]

@[simp] theorem withoutUpgrades_pendingModified (mshr : Mshr) (pkt : Packet) :
    (mshr.withoutUpgrades pkt).pendingModified = mshr.pendingModified := by
  rcases withoutUpgrades_cases mshr pkt with same | replaced
  · rw [same]
  · rw [replaced]

@[simp] theorem withoutUpgrades_postInvalidate (mshr : Mshr) (pkt : Packet) :
    (mshr.withoutUpgrades pkt).postInvalidate = mshr.postInvalidate := by
  rcases withoutUpgrades_cases mshr pkt with same | replaced
  · rw [same]
  · rw [replaced]

/-- What `handleSnoop` can do. -/
inductive SnoopCase (mshr : Mshr) (pkt : Packet) (order : Nat) : SnoopResult → Prop
  | replaced (early : mshr.comesLate pkt = false)
      (takes : (pkt.needsWritable || pkt.req.isCacheInvalidate) = true) :
    SnoopCase mshr pkt order ⟨{ mshr with
      targets := mshr.targets.replaceUpgrades
      deferredTargets := mshr.deferredTargets.replaceUpgrades }, pkt, false⟩
  | ignored (early : mshr.comesLate pkt = false)
      (stays : ¬ (pkt.needsWritable || pkt.req.isCacheInvalidate) = true) :
    SnoopCase mshr pkt order ⟨mshr, pkt, false⟩
  -- an invalidation is due already
  | due (late : mshr.comesLate pkt = true) (front : Target) (rest : List Target)
      (shape : mshr.targets.list = front :: rest)
      (invalidates : (mshr.postInvalidate || front.pkt.req.isCacheInvalidate) = true) :
    SnoopCase mshr pkt order ⟨mshr.withoutUpgrades pkt, pkt, true⟩
  | saved (late : mshr.comesLate pkt = true) (front : Target) (rest : List Target)
      (shape : mshr.targets.list = front :: rest)
      (keeps : (mshr.postInvalidate || front.pkt.req.isCacheInvalidate) = false) :
    SnoopCase mshr pkt order ((mshr.withoutUpgrades pkt).snoopInService pkt order)

theorem handleSnoop_cases {result : SnoopResult}
    (handled : mshr.handleSnoop pkt order = some result) : SnoopCase mshr pkt order result := by
  unfold handleSnoop at handled
  dsimp only at handled
  split at handled
  · cases handled
  · have when : mshr.comesLate pkt =
        !(!mshr.inService || (pkt.expressSnoop && mshr.downstreamPending)) := by
      rw [Bool.not_or, Bool.not_not, comesLate]
    split at handled
    next early =>
      rw [early, Bool.not_true] at when
      split at handled <;> cases handled
      next takes => exact .replaced when takes
      next stays => exact .ignored when stays
    next late =>
      rw [eq_false_of_ne_true late, Bool.not_false] at when
      -- the deferred upgrades have no say in what follows
      rw [← withoutUpgrades, withoutUpgrades_targets] at handled
      split at handled
      · cases handled
      next front rest shape =>
        rw [withoutUpgrades_postInvalidate] at handled
        split at handled
        next invalidates =>
          cases handled
          exact .due when front rest shape invalidates
        next keeps =>
          split at handled <;> cases handled
          exact .saved when front rest shape (eq_false_of_ne_true keeps)

theorem extractServiceableTargets_some {left : Mshr} {ready : TargetList}
    (extracted : mshr.extractServiceableTargets cmd = some (ready, left)) :
    ready.list = serviced cmd mshr.targets.list ∧
      left.targets.list = leftBehind cmd mshr.targets.list ∧
      left.deferredTargets = mshr.deferredTargets := by
  unfold extractServiceableTargets at extracted
  split at extracted
  · dsimp only at extracted
    cases extracted
    refine ⟨?_, rfl, rfl⟩
    unfold serviced
    split <;> rfl
  · cases extracted

theorem serviced_sublist (cmd : MemCmd) (targets : List Target) :
    (serviced cmd targets).Sublist targets := by
  unfold serviced
  split
  · cases targets with
    | nil => exact List.Sublist.refl []
    | cons first => exact List.filter_sublist.cons_cons first
  · exact List.Sublist.refl targets

theorem leftBehind_mem {targets : List Target} {t : Target} (mem : t ∈ leftBehind cmd targets) :
    t ∈ targets ∧ t.source ≠ .fromSnoop := by
  unfold leftBehind at mem
  split at mem
  · obtain ⟨waits, request⟩ := List.mem_filter.mp mem
    exact ⟨List.mem_of_mem_tail waits, by simpa using request⟩
  · exact absurd mem List.not_mem_nil

/-- The target that is dropped was the first; without another one the deferred
targets move up. -/
theorem forceDeallocateTarget_cases (popped : mshr.forceDeallocateTarget = some (some after)) :
    ∃ front rest, mshr.targets.list = front :: rest ∧
      ((rest = [] ∧ promoteDeferredTargets
          { mshr with targets := { mshr.targets with list := [] } } = some after) ∨
        (rest ≠ [] ∧ after = { mshr with targets := { mshr.targets with list := rest } })) := by
  unfold forceDeallocateTarget at popped
  split at popped
  · cases popped
  next front rest shape =>
    refine ⟨front, rest, shape, ?_⟩
    have popped := Option.some.inj popped
    cases rest with
    | nil => exact .inl ⟨rfl, popped⟩
    | cons => exact .inr ⟨List.cons_ne_nil _ _, (Option.some.inj popped).symm⟩

end Mshr

end RasCache.Mem
