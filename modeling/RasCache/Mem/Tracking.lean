import Mathlib.Data.List.Nodup
import RasCache.Mem.Residency

/-!
# One line among the others

The MSHRs of a cache are told apart by the order of their allocation, and a step
that is about other lines leaves the MSHR of a line and the absence of its block
alone.
-/
namespace RasCache.Mem

open Outcomes

variable {R : Type}

/-! ### The line of an MSHR never changes -/

variable {order : Nat}

namespace Mshr

/-- What `findMatch` compares. -/
def seen (mshr : Mshr) (key : LineKey) : Bool := !mshr.uncacheable && decide (mshr.key = key)

variable {after mshr : Mshr}

theorem seen_congr {before : Mshr} (same : Cache.SameLine before after) (key : LineKey) :
    after.seen key = before.seen key := by
  simp only [seen, same.key, same.uncacheable]

theorem seen_eq_false_of_key {key : LineKey} (other : mshr.key ≠ key) : mshr.seen key = false := by
  simp [seen, other]

variable {ready : TargetList} {pkt : Packet} {cmd : MemCmd} {left : Mshr}

theorem allocateTarget_line {allocOnFill : Bool}
    (added : mshr.allocateTarget pkt order allocOnFill = some after) :
    Cache.SameLine mshr after := by
  cases allocateTarget_cases added with
  | deferred => exact ⟨rfl, rfl⟩
  | joined => exact ⟨rfl, rfl⟩

theorem updateMayNotFill_line (mshr : Mshr) (mayNotFill : Bool) :
    Cache.SameLine mshr (mshr.updateMayNotFill mayNotFill) := ⟨rfl, rfl⟩

theorem allocateMissBuffer_key (blkSize : Nat) (pkt : Packet) (order : Nat)
    (allocOnFill clearNoFill : Bool) :
    (allocateMissBuffer blkSize pkt order allocOnFill clearNoFill).key = pkt.line blkSize := by
  cases clearNoFill <;> rfl

theorem saveSnoop_line (mshr : Mshr) (pkt : Packet) (order : Nat) :
    Cache.SameLine mshr (mshr.saveSnoop pkt order) := by
  unfold saveSnoop
  split <;> exact ⟨rfl, rfl⟩

theorem handleSnoop_line {result : SnoopResult}
    (handled : mshr.handleSnoop pkt order = some result) : Cache.SameLine mshr result.mshr := by
  have start : Cache.SameLine mshr (mshr.withoutUpgrades pkt) := by
    rcases withoutUpgrades_cases mshr pkt with same | replaced
    · rw [same]
      exact ⟨rfl, rfl⟩
    · rw [replaced]
      exact ⟨rfl, rfl⟩
  cases handleSnoop_cases handled with
  | replaced => exact ⟨rfl, rfl⟩
  | ignored => exact ⟨rfl, rfl⟩
  | due => exact start
  | saved =>
    have saved := saveSnoop_line (mshr.withoutUpgrades pkt) pkt order
    exact start.trans ⟨saved.key, saved.uncacheable⟩

theorem extractServiceableTargets_line
    (extracts : mshr.extractServiceableTargets cmd = some (ready, left)) :
    Cache.SameLine mshr left := by
  unfold extractServiceableTargets at extracts
  split at extracts <;> cases extracts
  exact ⟨rfl, rfl⟩

theorem promoteDeferredTargets_line (promoted : mshr.promoteDeferredTargets = some after) :
    Cache.SameLine mshr after := by
  unfold promoteDeferredTargets at promoted
  split at promoted <;> cases promoted
  exact ⟨rfl, rfl⟩

theorem retired_line {serviced : Mshr} {moved : List Target}
    (promotes : Cache.Promotes mshr serviced moved)
    (extracts : serviced.extractServiceableTargets cmd = some (ready, left))
    (promoted : left.promoteDeferredTargets = some after) :
    Cache.SameLine mshr { after with inService := false } := by
  have extracted := extractServiceableTargets_line extracts
  have same := (promotes.line.trans extracted).trans (promoteDeferredTargets_line promoted)
  exact ⟨same.key, same.uncacheable⟩

theorem forceDeallocateTarget_line (popped : mshr.forceDeallocateTarget = some (some after)) :
    Cache.SameLine mshr after := by
  obtain ⟨_, _, _, outcome⟩ := forceDeallocateTarget_cases popped
  rcases outcome with ⟨_, promoted⟩ | ⟨_, rfl⟩
  · have promoted := promoteDeferredTargets_line promoted
    exact ⟨promoted.key, promoted.uncacheable⟩
  · exact ⟨rfl, rfl⟩

end Mshr

namespace Cache

variable {rp : ReplacementPolicy R} {cfg : CacheParams}

/-! ### Telling the MSHRs apart -/

/-- The counter is ahead of every MSHR and gives each its own number. -/
structure Ordered (cache : Cache R) : Prop where
  ahead : ∀ entry ∈ cache.mshrs, entry.id < cache.order
  distinct : (cache.mshrs.map MshrEntry.id).Nodup

theorem empty_ordered (repl : R) : (Cache.empty repl).Ordered := by
  constructor
  · intro _ mem
    cases mem
  · exact List.nodup_nil

variable {cache after : Cache R} {entry : MshrEntry} {P : Mshr → Prop} {e : CacheEvent}
  {key : LineKey} {id : Nat} {pkt : Packet} {sent : Sent} {α : Type}

theorem Ordered.unique (ordered : cache.Ordered) (first second : MshrEntry)
    (one : first ∈ cache.mshrs) (two : second ∈ cache.mshrs) (same : first.id = second.id) :
    first = second :=
  List.inj_on_of_nodup_map ordered.distinct one two same

theorem Ordered.findId (ordered : cache.Ordered) (entry : MshrEntry)
    (mem : entry ∈ cache.mshrs) : cache.findId entry.id = some entry := by
  cases found : cache.findId entry.id with
  | none =>
    have missed := List.find?_eq_none.mp found entry mem
    simp at missed
  | some other =>
    obtain ⟨also, same⟩ := findId_mem found
    rw [ordered.unique other entry also mem same]

theorem setMshr_ids (cache : Cache R) (id : Nat) (mshr : Mshr) :
    (cache.setMshr id mshr).mshrs.map MshrEntry.id = cache.mshrs.map MshrEntry.id := by
  simp only [setMshr, List.map_map]
  refine List.map_congr_left fun entry _ => ?_
  simp only [Function.comp_apply]
  split <;> rfl

theorem Ordered.of_sublist (ordered : cache.Ordered)
    (fewer : List.Sublist (after.mshrs.map MshrEntry.id) (cache.mshrs.map MshrEntry.id))
    (later : cache.order ≤ after.order) : after.Ordered := by
  refine ⟨fun entry mem => ?_, ordered.distinct.sublist fewer⟩
  have named : entry.id ∈ cache.mshrs.map MshrEntry.id := fewer.subset (List.mem_map_of_mem mem)
  obtain ⟨old, waits, _⟩ := List.mem_map.mp named
  have before := ordered.ahead old waits
  omega

theorem Ordered.allocate (ordered : cache.Ordered) (pkt : Packet) (clearNoFill : Bool)
    (list : after.mshrs = (cache.allocateMissBuffer cfg pkt clearNoFill).mshrs)
    (order : after.order = cache.order + 1) : after.Ordered := by
  have list : after.mshrs = cache.mshrs ++ [⟨cache.order, _⟩] := list
  constructor
  · rw [list, List.forall_mem_append, List.forall_mem_singleton]
    refine ⟨fun entry old => ?_, by simp only; omega⟩
    have before := ordered.ahead entry old
    omega
  · rw [list, List.map_append, List.nodup_append]
    refine ⟨ordered.distinct, List.nodup_singleton _, ?_⟩
    intro _ old _ new _
    obtain ⟨entry, mem, rfl⟩ := List.mem_map.mp old
    have before := ordered.ahead entry mem
    simp only [List.map_cons, List.map_nil, List.mem_singleton] at new
    omega

/-! ### MSHRs that stay -/

/-- What an MSHR keeps until its response or a squash. -/
structure StayRule (P : Mshr → Prop) : Prop where
  added : ∀ mshr after pkt order allocOnFill, P mshr →
    mshr.allocateTarget pkt order allocOnFill = some after → P after
  sent : ∀ mshr isForward pendingModifiedResp, P mshr →
    P (Mshr.markInService { mshr with isForward } pendingModifiedResp)
  granted : ∀ mshr, P mshr → P (mshr.updateMayNotFill false)
  snooped : ∀ mshr pkt order result, P mshr → mshr.handleSnoop pkt order = some result →
    P result.mshr
  pended : ∀ mshr downstreamPending, P mshr → P { mshr with downstreamPending }

theorem mem_setMshr (id : Nat) (mshr : Mshr) (mem : entry ∈ cache.mshrs) :
    (if entry.id = id then { entry with mshr } else entry) ∈ (cache.setMshr id mshr).mshrs :=
  List.mem_map.mpr ⟨entry, mem, rfl⟩

/-- The MSHR is there and has the property. -/
def Stays (P : Mshr → Prop) (id : Nat) (mshrs : List MshrEntry) : Prop :=
  ∃ now ∈ mshrs, now.id = id ∧ P now.mshr

/-- An MSHR is replaced by one that has the property if the old one had. -/
theorem Ordered.stays_set (ordered : cache.Ordered) (entry : MshrEntry)
    (mem : entry ∈ cache.mshrs) (holds : P entry.mshr) (old : MshrEntry)
    (waits : old ∈ cache.mshrs) (mshr : Mshr) (keeps : entry = old → P mshr) :
    Stays P entry.id (cache.setMshr old.id mshr).mshrs := by
  refine ⟨_, mem_setMshr old.id mshr mem, ?_⟩
  split
  next same => exact ⟨rfl, keeps (ordered.unique entry old mem waits same)⟩
  next => exact ⟨rfl, holds⟩

theorem stays_removed (mem : entry ∈ cache.mshrs) (holds : P entry.mshr) (id : Nat)
    (other : entry.id ≠ id) : Stays P entry.id (cache.removeMshr id).mshrs :=
  ⟨entry, List.mem_filter.mpr ⟨mem, by simpa using other⟩, rfl, holds⟩

/-- Nothing but its response or a squash takes the property from an MSHR. -/
theorem StayRule.stays (rule : StayRule P) {list : List MshrEntry}
    (change : MshrChange cfg cache e list order) (ordered : cache.Ordered) (entry : MshrEntry)
    (mem : entry ∈ cache.mshrs) (holds : P entry.mshr) (other : responds e ≠ some entry.id)
    (unsquashed : e ≠ .squashPrefetch entry.id) : Stays P entry.id list := by
  have appended (new : MshrEntry) : Stays P entry.id (cache.mshrs ++ [new]) :=
    ⟨entry, List.mem_append_left _ mem, rfl, holds⟩
  have set := ordered.stays_set entry mem holds
  cases change with
  | same => exact ⟨entry, mem, rfl, holds⟩
  | missed => exact appended _
  | fetched => exact appended _
  | coalesced req _ _ old mshr hit added =>
    refine set old (findMshr_mem hit) mshr ?_
    rintro rfl
    exact rule.added _ mshr req _ _ holds added
  | sent _ pendingModifiedResp _ old isForward found =>
    obtain ⟨waits, rfl⟩ := findId_mem found
    refine set old waits _ ?_
    rintro rfl
    exact rule.sent _ isForward pendingModifiedResp holds
  | granted _ old hit =>
    refine set old (grantee_mem hit).1 _ ?_
    rintro rfl
    exact rule.granted _ holds
  | retired _ _ _ _ old _ _ _ _ _ _ found =>
    -- the entry that changes is another one
    obtain ⟨waits, rfl⟩ := findId_mem found
    refine set old waits _ ?_
    rintro rfl
    exact absurd rfl other
  | freed id =>
    exact stays_removed mem holds id fun same => other (congrArg some same.symm)
  | squashed _ old mshr found =>
    obtain ⟨waits, rfl⟩ := findId_mem found
    refine set old waits mshr ?_
    rintro rfl
    exact absurd rfl unsquashed
  | dropped id =>
    refine stays_removed mem holds id ?_
    rintro rfl
    exact unsquashed rfl
  | snooped pkt _ old result hit snooped =>
    refine set old (findMshr_mem hit) _ ?_
    rintro rfl
    exact rule.snooped _ pkt _ result holds snooped
  | pended _ pending =>
    refine ⟨_, List.mem_map_of_mem mem, ?_⟩
    split
    · exact ⟨rfl, rule.pended _ pending holds⟩
    · exact ⟨rfl, holds⟩

/-! ### The counter -/

theorem handle_ordered (ordered : cache.Ordered)
    (handled : cache.handle rp cfg e = .ok (after, sent)) : after.Ordered := by
  have change := handle_mshrs handled
  -- an MSHR that is replaced keeps its number
  have replaced (id : Nat) (mshr : Mshr) (list : after.mshrs = (cache.setMshr id mshr).mshrs)
      (later : cache.order ≤ after.order) : after.Ordered := by
    refine ordered.of_sublist ?_ later
    rw [list, setMshr_ids]
  have removed (id : Nat) (list : after.mshrs = (cache.removeMshr id).mshrs)
      (later : cache.order ≤ after.order) : after.Ordered := by
    refine ordered.of_sublist ?_ later
    rw [list]
    exact List.filter_sublist.map _
  generalize list : after.mshrs = mshrs at change
  generalize counter : after.order = order at change
  cases change with
  | same => exact ordered.of_sublist (by rw [list]) (by omega)
  | missed _ _ _ pkt clearNoFill => exact ordered.allocate pkt clearNoFill list counter
  | fetched => exact ordered.allocate _ true list counter
  | coalesced => exact replaced _ _ list (by omega)
  | sent => exact replaced _ _ list (by omega)
  | granted => exact replaced _ _ list (by omega)
  | retired => exact replaced _ _ list (by omega)
  | freed => exact removed _ list (by omega)
  | squashed => exact replaced _ _ list (by omega)
  | dropped => exact removed _ list (by omega)
  | snooped => exact replaced _ _ list (by omega)
  | pended =>
    refine ordered.of_sublist ?_ (by omega)
    have same : after.mshrs.map MshrEntry.id = cache.mshrs.map MshrEntry.id := by
      rw [list, List.map_map]
      refine List.map_congr_left fun entry _ => ?_
      simp only [Function.comp_apply]
      split <;> rfl
    rw [same]

variable {mshr : Mshr}

theorem answered_tracked (ordered : cache.Ordered) {other : Mshr}
    (found : cache.findMshr key = some ⟨id, mshr⟩) (answered : cache.answered id pkt = some other) :
    other = mshr := by
  have pointer := ordered.findId _ (findMshr_mem found)
  obtain ⟨_, looked, same⟩ := Option.bind_eq_some_iff.mp answered
  rw [pointer] at looked
  cases looked
  split at same
  · exact (Option.some.inj same).symm
  · cases same

/-- What `sendMSHRQueuePacket` does. -/
theorem sendMSHRQueuePacket_ok {above : Packet → Bool} {pendingModifiedResp : Bool}
    (ret : cache.sendMSHRQueuePacket rp cfg above id pendingModifiedResp =
      .ok (after, sent)) :
    ∃ entry pkt isForward, cache.findId id = some entry ∧
      cache.missPacket rp cfg entry.mshr = some (pkt, isForward) ∧ sent.down = [pkt] ∧
      after.mshrs = (cache.setMshr id
        (Mshr.markInService { entry.mshr with isForward } pendingModifiedResp)).mshrs ∧
      cache.tags.NoneNew after.tags := by
  have tags := sendMSHRQueuePacket_tags ret
  obtain ⟨entry, pkt, isForward, _, found, _, made, rfl, outcome⟩ := sendMSHRQueuePacket_cases ret
  refine ⟨entry, pkt, isForward, found, made, rfl, ?_, tags⟩
  cases outcome <;> rfl

/-! ### Events about other lines -/

variable (cfg) in
/-- The event is about another line than `key`. Only the number of the MSHR says
what line a send, a squash or a response is about. -/
def Elsewhere (cache : Cache R) (key : LineKey) : CacheEvent → Prop
  | .recvTimingReq pkt _ _ => pkt.line cfg.blkSize ≠ key
  | .recvTimingResp id pkt _ _ =>
    pkt.line cfg.blkSize ≠ key ∧
      ∀ entry ∈ cache.mshrs, entry.id = id → entry.mshr.key ≠ key
  | .sendMSHRQueuePacket id _ _ => ∀ entry ∈ cache.mshrs, entry.id = id → entry.mshr.key ≠ key
  | .sendWriteQueuePacket _ => True
  | .recvPfAck pkt => pkt.rawLine ≠ key
  | .issuePrefetch line => (prefetchPacket cfg line).line cfg.blkSize ≠ key
  | .squashPrefetch id => ∀ entry ∈ cache.mshrs, entry.id = id → entry.mshr.key ≠ key
  | .recvTimingSnoopReq pkt _ => pkt.line cfg.blkSize ≠ key
  | .setDownstreamPending _ _ => True

/-- The MSHR of the line, if there is one, is what it was but for the mark that
its request is held up below. -/
structure LineKept (key : LineKey) (before after : Cache R) : Prop where
  none : before.findMshr key = none → after.findMshr key = none
  some : ∀ id mshr, before.findMshr key = some ⟨id, mshr⟩ →
    ∃ pending, after.findMshr key = some ⟨id, { mshr with downstreamPending := pending }⟩

theorem LineKept.of_eq {before : Cache R} (same : after.findMshr key = before.findMshr key) :
    LineKept key before after := by
  refine ⟨fun absent => same.trans absent, fun id mshr found => ⟨mshr.downstreamPending, ?_⟩⟩
  rw [same, found]

theorem findMshr_key (found : cache.findMshr key = Option.some entry) : entry.mshr.key = key := by
  have seen := List.find?_some found
  simp only [Bool.and_eq_true, decide_eq_true_eq] at seen
  exact seen.2

theorem find?_map_unseen (p : α → Bool) {f : α → α} (list : List α)
    (unseen : ∀ a ∈ list, f a = a ∨ (p a = false ∧ p (f a) = false)) :
    (list.map f).find? p = list.find? p := by
  induction list with
  | nil => rfl
  | cons a _ ih =>
    have tail := ih fun b mem => unseen b (List.mem_cons_of_mem _ mem)
    rcases unseen a List.mem_cons_self with same | ⟨before, after⟩
    · simp only [List.map_cons, same, List.find?_cons, tail]
    · simp only [List.map_cons, List.find?_cons, before, after, tail]

theorem find?_map_seen (p : α → Bool) (f : α → α) (list : List α)
    (same : ∀ a ∈ list, p (f a) = p a) : (list.map f).find? p = (list.find? p).map f := by
  induction list with
  | nil => rfl
  | cons a _ ih =>
    have tail := ih fun b mem => same b (List.mem_cons_of_mem _ mem)
    have head := same a List.mem_cons_self
    cases seen : p a <;> simp [head, seen, tail]

theorem find?_filter_unseen (p : α → Bool) {keep : α → Bool} (list : List α)
    (unseen : ∀ a ∈ list, keep a = false → p a = false) :
    (list.filter keep).find? p = list.find? p := by
  induction list with
  | nil => rfl
  | cons a _ ih =>
    have tail := ih fun b mem => unseen b (List.mem_cons_of_mem _ mem)
    cases kept : keep a with
    | true => simp only [List.filter_cons, kept, if_true, List.find?_cons, tail]
    | false =>
      have dropped := unseen a List.mem_cons_self kept
      simp [kept, dropped, tail]

theorem setMshr_findMshr (cache : Cache R) (id : Nat) {mshr : Mshr} {key : LineKey}
    (before : ∀ entry ∈ cache.mshrs, entry.id = id → entry.mshr.seen key = false)
    (now : mshr.seen key = false) : (cache.setMshr id mshr).findMshr key = cache.findMshr key := by
  refine find?_map_unseen (fun entry => entry.mshr.seen key) cache.mshrs fun entry mem => ?_
  by_cases same : entry.id = id
  · simp only [same, if_true]
    exact .inr ⟨before entry mem same, now⟩
  · simp only [same, if_false]
    exact .inl trivial

theorem setMshr_findMshr_self (ordered : cache.Ordered) {after : Mshr}
    (found : cache.findMshr key = Option.some ⟨id, mshr⟩) (same : SameLine mshr after) :
    (cache.setMshr id after).findMshr key = Option.some ⟨id, after⟩ := by
  have mem := findMshr_mem found
  have mapped := find?_map_seen (fun entry => entry.mshr.seen key)
    (fun entry => if entry.id = id then { entry with mshr := after } else entry) cache.mshrs ?_
  · refine mapped.trans ?_
    change (cache.findMshr key).map _ = _
    rw [found]
    simp
  · intro entry waits
    by_cases named : entry.id = id
    · rw [ordered.unique entry ⟨id, mshr⟩ waits mem named]
      simpa using Mshr.seen_congr same key
    · simp only [named, if_false]

theorem removeMshr_findMshr (cache : Cache R) (id : Nat) (key : LineKey)
    (before : ∀ entry ∈ cache.mshrs, entry.id = id → entry.mshr.seen key = false) :
    (cache.removeMshr id).findMshr key = cache.findMshr key := by
  refine find?_filter_unseen (fun entry => entry.mshr.seen key) cache.mshrs ?_
  intro entry mem dropped
  exact before entry mem (by simpa using dropped)

theorem allocateMissBuffer_findMshr (cache : Cache R) (clearNoFill : Bool)
    (other : pkt.line cfg.blkSize ≠ key) :
    (cache.allocateMissBuffer cfg pkt clearNoFill).findMshr key = cache.findMshr key := by
  have unseen : (Mshr.allocateMissBuffer cfg.blkSize pkt cache.order
      (cfg.allocOnFill pkt.cmd) clearNoFill).seen key = false := by
    refine Mshr.seen_eq_false_of_key ?_
    rwa [Mshr.allocateMissBuffer_key]
  simp only [Mshr.seen] at unseen
  simp [findMshr, allocateMissBuffer, List.find?_append, unseen]

theorem allocateMissBuffer_findMshr_self (clearNoFill : Bool)
    (line : pkt.line cfg.blkSize = key) (cacheable : pkt.req.flags.uncacheable = false)
    (idle : cache.findMshr key = Option.none) :
    (cache.allocateMissBuffer cfg pkt clearNoFill).findMshr key =
      Option.some ⟨cache.order, Mshr.allocateMissBuffer cfg.blkSize pkt cache.order
        (cfg.allocOnFill pkt.cmd) clearNoFill⟩ := by
  have visible : (Mshr.allocateMissBuffer cfg.blkSize pkt cache.order
      (cfg.allocOnFill pkt.cmd) clearNoFill).uncacheable = false := by
    cases clearNoFill <;> exact cacheable
  simp only [findMshr] at idle
  simp [findMshr, allocateMissBuffer, List.find?_append, idle, visible,
    Mshr.allocateMissBuffer_key, line]

theorem handle_lineKept (ordered : cache.Ordered) (elsewhere : cache.Elsewhere cfg key e)
    (handled : cache.handle rp cfg e = .ok (after, sent)) : LineKept key cache after := by
  have change := handle_mshrs handled
  -- an entry that works on another line is replaced by one that does, too
  have replaced (id : Nat) (entry : MshrEntry) (mshr : Mshr) (mem : entry ∈ cache.mshrs)
      (named : entry.id = id) (list : after.mshrs = (cache.setMshr id mshr).mshrs)
      (other : entry.mshr.key ≠ key) (same : SameLine entry.mshr mshr) :
      LineKept key cache after := by
    have found : after.findMshr key = (cache.setMshr id mshr).findMshr key := by
      simp only [findMshr, list]
    refine .of_eq (found.trans (setMshr_findMshr cache id ?_ ?_))
    · intro old waits this
      rw [ordered.unique old entry waits mem (this.trans named.symm)]
      exact Mshr.seen_eq_false_of_key other
    · rw [Mshr.seen_congr same]
      exact Mshr.seen_eq_false_of_key other
  have removed (id : Nat) (others : ∀ entry ∈ cache.mshrs, entry.id = id → entry.mshr.key ≠ key)
      (list : after.mshrs = (cache.removeMshr id).mshrs) : LineKept key cache after := by
    have found : after.findMshr key = (cache.removeMshr id).findMshr key := by
      simp only [findMshr, list]
    refine .of_eq (found.trans (removeMshr_findMshr cache id key ?_))
    exact fun old waits this => Mshr.seen_eq_false_of_key (others old waits this)
  have opened (pkt : Packet) (clearNoFill : Bool) (other : pkt.line cfg.blkSize ≠ key)
      (list : after.mshrs = (cache.allocateMissBuffer cfg pkt clearNoFill).mshrs) :
      LineKept key cache after := by
    have found : after.findMshr key =
        (cache.allocateMissBuffer cfg pkt clearNoFill).findMshr key := by
      simp only [findMshr, list]
    exact .of_eq (found.trans (allocateMissBuffer_findMshr cache clearNoFill other))
  generalize list : after.mshrs = mshrs at change
  generalize after.order = order at change
  cases change with
  | same => exact .of_eq (by simp only [findMshr, list])
  | missed _ _ _ pkt clearNoFill carries =>
    refine opened pkt clearNoFill ?_ list
    rcases carries with rfl | rfl <;> exact elsewhere
  | fetched => exact opened _ true elsewhere list
  | coalesced _ _ _ entry mshr hit added =>
    refine replaced entry.id entry mshr (findMshr_mem hit) rfl list ?_
      (Mshr.allocateTarget_line added)
    rwa [findMshr_key hit]
  | sent id _ _ entry _ found =>
    obtain ⟨mem, named⟩ := findId_mem found
    exact replaced id entry _ mem named list (elsewhere entry mem named) ⟨rfl, rfl⟩
  | granted _ entry hit =>
    refine replaced entry.id entry _ (grantee_mem hit).1 rfl list ?_
      (Mshr.updateMayNotFill_line entry.mshr false)
    unfold grantee at hit
    split at hit
    · split at hit
      · rwa [findMshr_key hit]
      · cases hit
    · split at hit
      · rwa [findMshr_key hit]
      · cases hit
    · cases hit
  | retired id pkt tick above entry moved cmd ready serviced left mshr found promotes extracts
      promoted =>
    obtain ⟨mem, named⟩ := findId_mem found
    exact replaced id entry _ mem named list (elsewhere.2 entry mem named)
      (Mshr.retired_line promotes extracts promoted)
  | freed id => exact removed id elsewhere.2 list
  | squashed id entry mshr found popped =>
    obtain ⟨mem, named⟩ := findId_mem found
    exact replaced id entry mshr mem named list (elsewhere entry mem named)
      (Mshr.forceDeallocateTarget_line popped)
  | dropped id => exact removed id elsewhere list
  | snooped _ _ entry _ hit snoop =>
    refine replaced entry.id entry _ (findMshr_mem hit) rfl list ?_ (Mshr.handleSnoop_line snoop)
    rwa [findMshr_key hit]
  | pended id pending =>
    let mark (entry : MshrEntry) : MshrEntry :=
      if entry.id = id then
        { entry with mshr := { entry.mshr with downstreamPending := pending } }
      else entry
    have marked : after.findMshr key = (cache.findMshr key).map mark := by
      rw [findMshr, list]
      refine find?_map_seen (fun entry => entry.mshr.seen key) mark cache.mshrs fun entry _ => ?_
      simp only [mark]
      split <;> rfl
    constructor
    · intro absent
      rw [marked, absent, Option.map_none]
    · intro own mshr found
      rw [marked, found, Option.map_some]
      by_cases here : own = id
      · exact ⟨pending, by simp only [mark, here, if_true]⟩
      · exact ⟨mshr.downstreamPending, by simp only [mark, here, if_false]⟩

/-- A line has at most one MSHR. -/
def OneEach (cache : Cache R) : Prop :=
  ∀ key, ∀ first ∈ cache.mshrs, ∀ second ∈ cache.mshrs,
    first.mshr.seen key = true → second.mshr.seen key = true → first.id = second.id

theorem empty_oneEach (repl : R) : (Cache.empty repl).OneEach := by
  intro _ _ mem
  cases mem

theorem unseen_of_free (free : cache.findMshr key = Option.none) (mem : entry ∈ cache.mshrs) :
    entry.mshr.seen key = false := by
  have missed := List.find?_eq_none.mp free entry mem
  simpa [Mshr.seen] using missed

theorem findMshr_seen (found : cache.findMshr key = some entry) : entry.mshr.seen key = true := by
  have matched := List.find?_some found
  exact matched

theorem findMshr_of_seen (single : cache.OneEach) (ordered : cache.Ordered)
    (mem : entry ∈ cache.mshrs) (seen : entry.mshr.seen key = true) :
    cache.findMshr key = some entry := by
  cases found : cache.findMshr key with
  | none =>
    rw [unseen_of_free found mem] at seen
    cases seen
  | some other =>
    have visible := findMshr_seen found
    have same := single key other (findMshr_mem found) entry mem visible seen
    rw [ordered.unique other entry (findMshr_mem found) mem same]

variable (cfg) in
/-- Where an MSHR comes from that is there after an event: it was there before, on
the same line, or it was opened for a line without one. -/
inductive Origin (cache : Cache R) (now : MshrEntry) : Prop
  | kept (old : MshrEntry) (mem : old ∈ cache.mshrs) (named : old.id = now.id)
      (same : SameLine old.mshr now.mshr)
  | opened (pkt : Packet) (clearNoFill : Bool)
      (free : pkt.req.flags.uncacheable = true ∨
        cache.findMshr (pkt.line cfg.blkSize) = Option.none)
      (new : now = ⟨cache.order, Mshr.allocateMissBuffer cfg.blkSize pkt cache.order
        (cfg.allocOnFill pkt.cmd) clearNoFill⟩)

theorem handle_origin (handled : cache.handle rp cfg e = .ok (after, sent)) :
    ∀ now ∈ after.mshrs, Origin cfg cache now := by
  intro now mem
  have change := handle_mshrs handled
  cases change.entries now mem with
  | untouched _ _ waits => exact .kept now waits rfl ⟨rfl, rfl⟩
  | missed _ _ _ pkt clearNoFill _ _ free => exact .opened pkt clearNoFill free rfl
  | fetched _ free => exact .opened _ true (.inr free) rfl
  | coalesced _ _ _ old _ waits _ added =>
    exact .kept old waits rfl (Mshr.allocateTarget_line added)
  | sent _ _ old _ waits => exact .kept old waits rfl ⟨rfl, rfl⟩
  | granted _ old waits =>
    exact .kept old waits rfl (Mshr.updateMayNotFill_line old.mshr false)
  | retired _ _ _ old _ _ _ _ _ _ waits promotes extracts promoted =>
    exact .kept old waits rfl (Mshr.retired_line promotes extracts promoted)
  | squashed old _ waits _ popped =>
    exact .kept old waits rfl (Mshr.forceDeallocateTarget_line popped)
  | snooped _ _ old _ waits _ snoop =>
    exact .kept old waits rfl (Mshr.handleSnoop_line snoop)
  | pended _ old waits => exact .kept old waits rfl ⟨rfl, rfl⟩

theorem opened_unseen {clearNoFill : Bool} (free : pkt.req.flags.uncacheable = true ∨
      cache.findMshr (pkt.line cfg.blkSize) = Option.none)
    (seen : (Mshr.allocateMissBuffer cfg.blkSize pkt cache.order (cfg.allocOnFill pkt.cmd)
      clearNoFill).seen key = true) {old : MshrEntry} (mem : old ∈ cache.mshrs) :
    old.mshr.seen key = false := by
  have visible : (Mshr.allocateMissBuffer cfg.blkSize pkt cache.order
      (cfg.allocOnFill pkt.cmd) clearNoFill).uncacheable = pkt.req.flags.uncacheable := by
    cases clearNoFill <;> rfl
  rw [Mshr.seen, Mshr.allocateMissBuffer_key, visible] at seen
  simp only [Bool.and_eq_true, Bool.not_eq_true', decide_eq_true_eq] at seen
  rcases free with uncacheable | free
  · rw [uncacheable] at seen
    cases seen.1
  · rw [← seen.2]
    exact unseen_of_free free mem

theorem handle_oneEach (single : cache.OneEach)
    (handled : cache.handle rp cfg e = .ok (after, sent)) : after.OneEach := by
  have origin := handle_origin handled
  intro key first one second two seen seen'
  -- an old MSHR of the line keeps a new one from being opened
  cases origin first one with
  | kept old mem named same =>
    rw [Mshr.seen_congr same] at seen
    cases origin second two with
    | kept old' mem' named' same' =>
      rw [Mshr.seen_congr same'] at seen'
      rw [← named, ← named']
      exact single key old mem old' mem' seen seen'
    | opened _ _ free new =>
      rw [new] at seen'
      rw [opened_unseen free seen' mem] at seen
      cases seen
  | opened _ _ free new =>
    cases origin second two with
    | kept _ mem _ same =>
      rw [new] at seen
      rw [Mshr.seen_congr same, opened_unseen free seen mem] at seen'
      cases seen'
    | opened _ _ _ new' => rw [new, new']

theorem handle_absent (elsewhere : cache.Elsewhere cfg key e)
    (handled : cache.handle rp cfg e = .ok (after, sent))
    (absent : cache.tags.findBlock rp key = none) : after.tags.findBlock rp key = none := by
  have change := handle_tags handled
  cases change with
  | kept none => exact none.absent rp absent
  | installed _ _ brought _ _ _ one =>
    refine one.absent rp ?_ absent
    cases e with
    | recvTimingReq => exact Option.some.inj brought ▸ elsewhere
    | recvTimingResp => exact Option.some.inj brought ▸ elsewhere.1
    | _ => cases brought

end Cache

end RasCache.Mem
