import Mathlib.Data.Finset.Lattice.Lemmas
import Mathlib.Data.Finset.SDiff
import RasCache.Mem.SnoopFilter

/-!
# Soundness of the snoop filter

Next to the filter, a ledger of what its ports really have: their copies of each
line and the requests that still wait for a response. The filter only sees the
traffic. It is sound if a port with a copy or a waiting request is never left out
of the ports to snoop.
-/
namespace RasCache.Mem

open Outcomes Function

/-- What the ports have of one line. A port whose request is under way when an
invalidating snoop reaches it may put the invalidation off until the response: it
is condemned, and has its copy until then. -/
structure PortView (n : Nat) where
  copies : Finset (Fin n) := ∅
  unanswered : Finset (Fin n) := ∅
  condemned : Finset (Fin n) := ∅

namespace PortView

variable {n : Nat}

/-- The sender of a packet that the filter takes in and the crossbar sends on. -/
def sent (view : PortView n) (pkt : Packet) (port : Fin n) : PortView n :=
  if pkt.needsResponse then
    -- a cache above the filter responds, and the filter does not see that response
    if pkt.cacheResponding then view
    else { view with unanswered := insert port view.unanswered }
  else if pkt.blockCached then view
  else { view with copies := view.copies.erase port }

/-- The ports `dests` are snooped. To an invalidation, the ports `lost` among them
give the line up, and those in `delayed` with a request under way do so later. -/
def snooped (view : PortView n) (pkt : Packet) (dests lost delayed : Finset (Fin n)) :
    PortView n :=
  if pkt.isInvalidate then
    { view with
      copies := view.copies \ (lost ∩ dests)
      condemned := view.condemned ∪ (delayed ∩ dests ∩ view.unanswered) }
  else view

/-- A port that supplies the line without sharers gives it up. -/
def supplied (view : PortView n) (pkt : Packet) (rspPort : Fin n) : PortView n :=
  if pkt.hasSharers then view else { view with copies := view.copies.erase rspPort }

theorem supplied_alone (view : PortView n) {pkt : Packet} (rspPort : Fin n)
    (alone : pkt.hasSharers = false) :
    view.supplied pkt rspPort = { view with copies := view.copies.erase rspPort } := by
  simp [supplied, alone]

/-- The request of the port is answered. The port takes a copy or not, and has
none if the response invalidates it or a snoop has condemned it. -/
def answered (view : PortView n) (port : Fin n) (keeps drops : Bool) : PortView n where
  copies :=
    if drops = true ∨ port ∈ view.condemned then view.copies.erase port
    else if keeps then insert port view.copies
    else view.copies
  unanswered := view.unanswered.erase port
  condemned := view.condemned.erase port

end PortView

/-- The filter and what its ports have. -/
structure SnoopLedger (n : Nat) where
  filter : SnoopFilter n := {}
  view : SnoopLine → PortView n := fun _ => {}

/-- The calls of the crossbar, with what the ports do at that point. -/
inductive SnoopEvent (n : Nat) where
  /-- `lookupRequest`, the snoops, and `finishRequest`. -/
  | request (pkt : Packet) (port : Fin n) (willRetry : Bool) (lost delayed : Finset (Fin n))
  /-- `lookupSnoop` and the snoops. -/
  | snoop (pkt : Packet) (lost delayed : Finset (Fin n))
  | snoopResponse (pkt : Packet) (rspPort reqPort : Fin n) (keeps : Bool)
  | snoopForward (pkt : Packet) (rspPort : Fin n)
  | response (pkt : Packet) (port : Fin n) (keeps : Bool)

namespace SnoopLedger

variable {n : Nat} (blkSize : Nat)

def setView (ledger : SnoopLedger n) (filter : SnoopFilter n) (line : SnoopLine)
    (view : PortView n) : SnoopLedger n where
  filter := filter
  view := update ledger.view line view

def step (ledger : SnoopLedger n) : SnoopEvent n → Option (SnoopLedger n)
  | .request pkt port willRetry lost delayed =>
    let line := pkt.snoopLine blkSize
    let view := ledger.view line
    (ledger.filter.lookupRequest blkSize pkt port).toOption.map fun (after, dests) =>
      let sent := if willRetry || !SnoopFilter.allocates pkt then view else view.sent pkt port
      ledger.setView (ledger.filter.finishRequest blkSize after pkt willRetry) line
        (sent.snooped pkt dests lost delayed)
  | .snoop pkt lost delayed =>
    let line := pkt.snoopLine blkSize
    let view := ledger.view line
    let (after, dests) := ledger.filter.lookupSnoop blkSize pkt
    -- a port without a request under way gives the line up at once
    some (ledger.setView after line
      (view.snooped pkt dests (lost ∪ (dests \ view.unanswered)) delayed))
  | .snoopResponse pkt rspPort reqPort keeps =>
    let line := pkt.snoopLine blkSize
    let view := ledger.view line
    (ledger.filter.updateSnoopResponse blkSize pkt rspPort reqPort).toOption.map fun after =>
      ledger.setView after line
        (if pkt.req.flags.uncacheable then view
        else (view.supplied pkt rspPort).answered reqPort keeps false)
  | .snoopForward pkt rspPort =>
    let line := pkt.snoopLine blkSize
    some (ledger.setView (ledger.filter.updateSnoopForward blkSize pkt) line
      ((ledger.view line).supplied pkt rspPort))
  | .response pkt port keeps =>
    let line := pkt.snoopLine blkSize
    let view := ledger.view line
    (ledger.filter.updateResponse blkSize pkt port).toOption.map fun after =>
      ledger.setView after line
        (if pkt.req.flags.uncacheable then view
        else if pkt.req.isCacheMaintenance then view.answered port false pkt.isInvalidate
        else view.answered port keeps false)

/-- What the caches owe the filter: a response answers a request, and a line is
supplied without sharers only if no other port has a copy that it will keep. -/
def Conforms (ledger : SnoopLedger n) : SnoopEvent n → Prop
  | .request .. => True
  | .snoop .. => True
  | .snoopResponse pkt rspPort reqPort _ =>
    let view := ledger.view (pkt.snoopLine blkSize)
    pkt.req.flags.uncacheable = false → reqPort ∈ view.unanswered ∧
      (pkt.hasSharers = false → ∀ port ∈ view.copies,
        port = rspPort ∨ port = reqPort ∨ port ∈ view.condemned)
  | .snoopForward pkt rspPort =>
    let view := ledger.view (pkt.snoopLine blkSize)
    pkt.hasSharers = false → ∀ port ∈ view.copies, port = rspPort ∨ port ∈ view.condemned
  | .response pkt port _ =>
    pkt.req.flags.uncacheable = false →
      port ∈ (ledger.view (pkt.snoopLine blkSize)).unanswered

end SnoopLedger

/-! ### The entry of a line -/

namespace SnoopFilter

variable {n : Nat} (blkSize : Nat)

/-- The entry of a line; a line without one has an entry that lists nothing. -/
def item (filter : SnoopFilter n) (line : SnoopLine) : SnoopItem n :=
  (filter.cachedLocations line).getD {}

@[simp] theorem item_set (filter : SnoopFilter n) (line : SnoopLine) (new : SnoopItem n) :
    (filter.set line new).item = update filter.item line new := by
  funext other
  by_cases same : other = line
  · subst same
    simp [item, set]
  · simp [item, set, same]

theorem eq_of_null {item : SnoopItem n} (null : item.interested = ∅) : item = {} := by
  obtain ⟨holder, requested⟩ := Finset.union_eq_empty.mp null
  cases item
  dsimp only at holder requested
  rw [holder, requested]

/-- Only an entry that lists nothing is erased. -/
@[simp] theorem item_eraseIfNullEntry (filter : SnoopFilter n) (line : SnoopLine) :
    (filter.eraseIfNullEntry line).item = filter.item := by
  unfold eraseIfNullEntry
  split
  next found =>
    split
    next null =>
      funext other
      by_cases same : other = line
      · subst same
        simp [item, found, eq_of_null null]
      · simp [item, same]
    next => rfl
  next => rfl

theorem mem_listed (filter : SnoopFilter n) (line : SnoopLine) (port : Fin n) :
    port ∈ filter.listed line ↔
      port ∈ (filter.item line).holder ∨ port ∈ (filter.item line).requested := by
  rw [← listed_getD]
  exact Finset.mem_union

/-- The entry after a snoop from below. -/
def snoopItem (item : SnoopItem n) (pkt : Packet) : SnoopItem n :=
  if pkt.isInvalidate = true ∧ item.requested = ∅ then { item with holder := ∅ } else item

theorem lookupSnoop_item (filter : SnoopFilter n) (pkt : Packet) :
    (filter.lookupSnoop blkSize pkt).1.item = update filter.item (pkt.snoopLine blkSize)
        (snoopItem (filter.item (pkt.snoopLine blkSize)) pkt) := by
  unfold lookupSnoop
  dsimp only
  cases found : filter.cachedLocations (pkt.snoopLine blkSize) with
  | none =>
    -- without an entry there is nothing to clear
    have empty : filter.item (pkt.snoopLine blkSize) = {} := by simp [item, found]
    have kept : snoopItem ({} : SnoopItem n) pkt = {} := by
      unfold snoopItem
      split <;> rfl
    rw [empty, kept, ← empty, update_eq_self]
  | some old =>
    have here : filter.item (pkt.snoopLine blkSize) = old := by simp [item, found]
    rw [here]
    unfold snoopItem
    by_cases clears : pkt.isInvalidate = true ∧ old.requested = ∅
    · simp [clears]
    · have keeps : (pkt.isInvalidate && decide (old.requested = ∅)) = false := by
        simpa using clears
      simp only [keeps, if_neg clears, Bool.false_eq_true, if_false]
      rw [← here, update_eq_self]

theorem lookupSnoop_dests (filter : SnoopFilter n) (pkt : Packet) :
    (filter.lookupSnoop blkSize pkt).2 = filter.listed (pkt.snoopLine blkSize) := by
  unfold lookupSnoop listed
  dsimp only
  cases filter.cachedLocations (pkt.snoopLine blkSize) with
  | none => rfl
  | some =>
    dsimp only
    split <;> rfl

theorem finishRequest_item (before after : SnoopFilter n) (pkt : Packet) (willRetry : Bool) :
    (before.finishRequest blkSize after pkt willRetry).item =
      if willRetry then before.item else after.item := by
  unfold finishRequest
  rw [item_eraseIfNullEntry]
  split <;> rfl

variable {filter after : SnoopFilter n} {pkt : Packet} {port : Fin n}

/-- A request changes the entry of its line, and only if the filter takes it in. -/
theorem lookupRequest_item {dests : Finset (Fin n)}
    (looked : filter.lookupRequest blkSize pkt port = .ok (after, dests)) :
    (allocates pkt = false ∧ after = filter) ∨ (allocates pkt = true ∧ ∃ new,
        requestItem (filter.item (pkt.snoopLine blkSize)) pkt port = .ok new ∧
        after.item = update filter.item (pkt.snoopLine blkSize) new) := by
  unfold lookupRequest at looked
  dsimp only at looked
  split at looked
  next allocates =>
    obtain ⟨new, requested, looked⟩ := bind_ok_iff.mp looked
    cases looked
    exact .inr ⟨allocates, new, requested, item_set ..⟩
  next passes =>
    cases looked
    exact .inl ⟨by simpa using passes, rfl⟩

theorem updateSnoopResponse_item {rspPort reqPort : Fin n}
    (cacheable : pkt.req.flags.uncacheable = false)
    (updated : filter.updateSnoopResponse blkSize pkt rspPort reqPort = .ok after) :
    let old := filter.item (pkt.snoopLine blkSize)
    after.item = update filter.item (pkt.snoopLine blkSize)
      { requested := old.requested.erase reqPort
        holder := insert reqPort (if pkt.hasSharers then old.holder else ∅) } := by
  unfold updateSnoopResponse at updated
  rw [cacheable, if_neg Bool.false_ne_true] at updated
  dsimp only at updated
  split at updated
  · cases updated
  · cases updated
    exact item_set ..

theorem updateSnoopForward_item (filter : SnoopFilter n) (pkt : Packet) :
    let old := filter.item (pkt.snoopLine blkSize)
    (filter.updateSnoopForward blkSize pkt).item =
      update filter.item (pkt.snoopLine blkSize)
        { old with holder := if pkt.hasSharers then old.holder else ∅ } := by
  unfold updateSnoopForward
  dsimp only
  cases shared : pkt.hasSharers with
  | true =>
    have kept : filter.item = update filter.item (pkt.snoopLine blkSize)
        { filter.item (pkt.snoopLine blkSize) with
          holder := (filter.item (pkt.snoopLine blkSize)).holder } :=
      (update_eq_self (pkt.snoopLine blkSize) filter.item).symm
    cases filter.cachedLocations (pkt.snoopLine blkSize) <;> exact kept
  | false =>
    cases found : filter.cachedLocations (pkt.snoopLine blkSize) with
    | none =>
      -- a line without an entry has no holders
      have empty : filter.item (pkt.snoopLine blkSize) = {} := by simp [item, found]
      simp only [Bool.false_eq_true, if_false]
      rw [empty]
      exact (update_eq_self_iff.mpr empty.symm).symm
    | some old =>
      have here : filter.item (pkt.snoopLine blkSize) = old := by simp [item, found]
      simp [here]

/-- The entry after a response to a port that has a request. -/
def responseItem (item : SnoopItem n) (pkt : Packet) (port : Fin n) : SnoopItem n where
  requested := item.requested.erase port
  holder :=
    if pkt.req.isCacheMaintenance then
      if pkt.isInvalidate then item.holder.erase port else item.holder
    else insert port item.holder

theorem updateResponse_item (cacheable : pkt.req.flags.uncacheable = false)
    (waits : port ∈ (filter.item (pkt.snoopLine blkSize)).requested)
    (updated : filter.updateResponse blkSize pkt port = .ok after) :
    after.item = update filter.item (pkt.snoopLine blkSize)
      (responseItem (filter.item (pkt.snoopLine blkSize)) pkt port) := by
  unfold updateResponse at updated
  rw [cacheable, if_neg Bool.false_ne_true] at updated
  cases found : filter.cachedLocations (pkt.snoopLine blkSize) with
  | none => simp [item, found] at waits
  | some old =>
    have here : filter.item (pkt.snoopLine blkSize) = old := by simp [item, found]
    rw [here] at waits ⊢
    rw [found] at updated
    dsimp only at updated
    -- the port waits for the response, so the panic is not reached
    rw [if_neg (not_not_intro waits)] at updated
    unfold responseItem
    split at updated
    next maintenance =>
      cases updated
      simp [maintenance]
    next ordinary =>
      cases updated
      simp [ordinary]

end SnoopFilter

/-! ### Soundness of one entry -/

/-- A copy is recorded, unless it is condemned; a condemned port waits for a
response; a port that waits is recorded. -/
structure PortView.Sound {n : Nat} (view : PortView n) (item : SnoopItem n) : Prop where
  copies : ∀ port ∈ view.copies, port ∈ item.holder ∨ port ∈ view.condemned
  condemned : view.condemned ⊆ view.unanswered
  unanswered : view.unanswered ⊆ item.requested

namespace PortView.Sound

variable {n : Nat} {view : PortView n} {item : SnoopItem n}

section

variable (sound : view.Sound item)
include sound

theorem listed (port : Fin n) (has : port ∈ view.copies ∨ port ∈ view.unanswered) :
    port ∈ item.holder ∨ port ∈ item.requested := by
  rcases has with copy | waits
  · rcases sound.copies port copy with holds | condemned
    · exact .inl holds
    · exact .inr (sound.unanswered (sound.condemned condemned))
  · exact .inr (sound.unanswered waits)

theorem sent (pkt : Packet) (port : Fin n) (new : SnoopItem n)
    (requested : SnoopFilter.requestItem item pkt port = .ok new) :
    (view.sent pkt port).Sound new := by
  unfold PortView.sent
  cases SnoopFilter.requestItem_cases requested with
  | asked needs fresh =>
    rw [if_pos needs, fresh, if_neg Bool.false_ne_true]
    exact ⟨sound.copies, sound.condemned.trans (Finset.subset_insert _ _),
      Finset.insert_subset_insert _ sound.unanswered⟩
  | promised needs responding =>
    rw [if_pos needs, if_pos responding]
    exact sound
  | evicted silent _ _ gone =>
    rw [silent, gone, if_neg Bool.false_ne_true, if_neg Bool.false_ne_true]
    refine ⟨fun other mem => ?_, sound.condemned, sound.unanswered⟩
    obtain ⟨different, copy⟩ := Finset.mem_erase.mp mem
    exact (sound.copies other copy).imp_left fun holds => Finset.mem_erase.mpr ⟨different, holds⟩
  | cached silent _ _ above =>
    rw [silent, if_neg Bool.false_ne_true, if_pos above]
    exact sound

/-- Copies given up to a snoop leave the entry sound as it is. -/
theorem snooped (pkt : Packet) (dests lost delayed : Finset (Fin n)) :
    (view.snooped pkt dests lost delayed).Sound item := by
  unfold PortView.snooped
  split
  · refine ⟨fun port mem => ?_, ?_, sound.unanswered⟩
    · have copy := (Finset.mem_sdiff.mp mem).1
      exact (sound.copies port copy).imp_right fun condemned => Finset.mem_union_left _ condemned
    · exact Finset.union_subset sound.condemned Finset.inter_subset_right
  · exact sound

/-- An invalidation from below that finds no request under way clears the holders,
and all of them give the line up. -/
theorem snoopedBelow (pkt : Packet) (dests lost delayed : Finset (Fin n))
    (all : ∀ port, port ∈ item.holder ∨ port ∈ item.requested → port ∈ dests) :
    (view.snooped pkt dests (lost ∪ (dests \ view.unanswered)) delayed).Sound
      (SnoopFilter.snoopItem item pkt) := by
  have before := sound.snooped pkt dests (lost ∪ (dests \ view.unanswered)) delayed
  unfold SnoopFilter.snoopItem
  split
  next clears =>
    obtain ⟨invalidates, idle⟩ := clears
    refine ⟨fun port mem => ?_, before.condemned, before.unanswered⟩
    -- Nobody waits, so every port that was snooped is among those that give up.
    have kept : port ∈ view.copies \ ((lost ∪ (dests \ view.unanswered)) ∩ dests) := by
      simpa [PortView.snooped, invalidates] using mem
    obtain ⟨copy, spared⟩ := Finset.mem_sdiff.mp kept
    have reached : port ∈ dests := all port (sound.listed port (.inl copy))
    have free : port ∉ view.unanswered := fun waits => by
      have request := sound.unanswered waits
      rw [idle] at request
      exact absurd request (Finset.notMem_empty port)
    refine absurd (Finset.mem_inter.mpr ⟨Finset.mem_union_right _ ?_, reached⟩) spared
    exact Finset.mem_sdiff.mpr ⟨reached, free⟩
  next => exact before

/-- A response: the port's request bit goes, and its copy, if it then has one, must
be recorded. -/
theorem answered {after : SnoopItem n} (port : Fin n) (keeps drops : Bool)
    (requested : after.requested = item.requested.erase port)
    (others : ∀ other ∈ view.copies, other ≠ port → other ∈ after.holder ∨ other ∈ view.condemned)
    (mine : drops = false → keeps = true ∨
      port ∈ view.copies → port ∉ view.condemned → port ∈ after.holder) :
    (view.answered port keeps drops).Sound after := by
  refine ⟨fun other mem => ?_, ?_, ?_⟩
  · -- the port that is answered, then the others
    by_cases same : other = port
    · subst same
      unfold PortView.answered at mem
      dsimp only at mem
      split at mem
      · exact absurd mem (Finset.notMem_erase other _)
      next stays =>
        rw [not_or, Bool.not_eq_true] at stays
        split at mem
        next taken => exact .inl (mine stays.1 (.inl taken) stays.2)
        next => exact .inl (mine stays.1 (.inr mem) stays.2)
    · have copy : other ∈ view.copies := by
        unfold PortView.answered at mem
        dsimp only at mem
        split at mem
        · exact Finset.mem_of_mem_erase mem
        · split at mem
          · exact Finset.mem_of_mem_insert_of_ne mem same
          · exact mem
      exact (others other copy same).imp_right fun condemned =>
        Finset.mem_erase.mpr ⟨same, condemned⟩
  · exact Finset.erase_subset_erase _ sound.condemned
  · rw [requested]
    exact Finset.erase_subset_erase _ sound.unanswered

end

end PortView.Sound

/-! ### Runs -/

namespace SnoopLedger

variable {n : Nat} (blkSize : Nat)

def Sound (ledger : SnoopLedger n) : Prop :=
  ∀ line, (ledger.view line).Sound (ledger.filter.item line)

theorem empty_sound : ({} : SnoopLedger n).Sound := by
  intro _
  exact ⟨fun port mem => (by cases mem), Finset.empty_subset _, Finset.empty_subset _⟩

section

variable (ledger : SnoopLedger n) (sound : ledger.Sound) (filter : SnoopFilter n) (line : SnoopLine)
  (view : PortView n)
include ledger sound filter line view

/-- An operation on the entry of one line. -/
theorem setView_sound {new : SnoopItem n}
    (changed : filter.item = update ledger.filter.item line new) (here : view.Sound new) :
    (ledger.setView filter line view).Sound := by
  intro other
  unfold setView
  dsimp only
  rw [changed]
  by_cases same : other = line
  · subst same
    rw [update_self, update_self]
    exact here
  · rw [update_of_ne same, update_of_ne same]
    exact sound other

/-- The same, where the entry stays as it is. -/
theorem setView_sound_same (same : filter.item = ledger.filter.item)
    (here : view.Sound (ledger.filter.item line)) : (ledger.setView filter line view).Sound := by
  refine ledger.setView_sound sound filter line view ?_ here
  rw [same, update_eq_self]

end

section Calls

variable (ledger after : SnoopLedger n) (sound : ledger.Sound) (pkt : Packet)

include sound

theorem request_sound {port : Fin n} {willRetry : Bool} {lost delayed : Finset (Fin n)}
    (taken : ledger.step blkSize (.request pkt port willRetry lost delayed) = some after) :
    after.Sound := by
  obtain ⟨⟨filter, dests⟩, looked, rfl⟩ := Option.map_eq_some_iff.mp taken
  rw [toOption_some_iff] at looked
  have finished := SnoopFilter.finishRequest_item blkSize ledger.filter filter pkt willRetry
  have before := sound (pkt.snoopLine blkSize)
  dsimp only
  -- A packet that is retried or that the filter passes by leaves the entry alone.
  rcases SnoopFilter.lookupRequest_item blkSize looked with
    ⟨passes, rfl⟩ | ⟨allocates, new, requested, changed⟩
  · rw [ite_self] at finished
    rw [passes, Bool.not_false, Bool.or_true, if_pos rfl]
    exact ledger.setView_sound_same sound _ _ _ finished (before.snooped pkt dests lost delayed)
  · cases willRetry with
    | true =>
      exact ledger.setView_sound_same sound _ _ _ finished (before.snooped pkt dests lost delayed)
    | false =>
      rw [allocates, Bool.not_true, Bool.or_false, if_neg Bool.false_ne_true]
      refine ledger.setView_sound sound _ _ _ (finished.trans changed) ?_
      exact (before.sent pkt port new requested).snooped pkt dests lost delayed

theorem snoop_sound {lost delayed : Finset (Fin n)}
    (taken : ledger.step blkSize (.snoop pkt lost delayed) = some after) : after.Sound := by
  cases taken
  refine ledger.setView_sound sound _ _ _
    (SnoopFilter.lookupSnoop_item blkSize ledger.filter pkt) ?_
  refine (sound (pkt.snoopLine blkSize)).snoopedBelow pkt _ lost delayed fun port recorded => ?_
  change port ∈ (ledger.filter.lookupSnoop blkSize pkt).2
  rw [SnoopFilter.lookupSnoop_dests]
  exact (SnoopFilter.mem_listed ..).mpr recorded

theorem snoopResponse_sound {rspPort reqPort : Fin n} {keeps : Bool}
    (conforms : ledger.Conforms blkSize (.snoopResponse pkt rspPort reqPort keeps))
    (taken : ledger.step blkSize (.snoopResponse pkt rspPort reqPort keeps) = some after) :
    after.Sound := by
  obtain ⟨filter, updated, rfl⟩ := Option.map_eq_some_iff.mp taken
  rw [toOption_some_iff] at updated
  have before := sound (pkt.snoopLine blkSize)
  cases cacheable : pkt.req.flags.uncacheable with
  | true =>
    have same : filter = ledger.filter := by
      simpa [SnoopFilter.updateSnoopResponse, cacheable] using updated.symm
    rw [if_pos rfl]
    exact ledger.setView_sound_same sound _ _ _ (by rw [same]) before
  | false =>
    obtain ⟨_, alone⟩ := conforms cacheable
    rw [if_neg Bool.false_ne_true]
    refine ledger.setView_sound sound _ _ _ (SnoopFilter.updateSnoopResponse_item blkSize
        cacheable updated) ?_
    cases shared : pkt.hasSharers with
    | true =>
      unfold PortView.supplied
      rw [if_pos shared]
      refine before.answered reqPort keeps false rfl (fun other copy _ => ?_) fun _ _ _ => ?_
      · exact (before.copies other copy).imp_left fun holds => Finset.mem_insert_of_mem holds
      · exact Finset.mem_insert_self ..
    | false =>
      have supplied : ((ledger.view (pkt.snoopLine blkSize)).supplied pkt rspPort).Sound
          (ledger.filter.item (pkt.snoopLine blkSize)) := by
        rw [PortView.supplied_alone _ _ shared]
        exact ⟨fun other copy => before.copies other (Finset.mem_of_mem_erase copy),
          before.condemned, before.unanswered⟩
      refine supplied.answered reqPort keeps false rfl (fun other copy different => ?_)
        fun _ _ _ => ?_
      · -- Every holder bit is cleared, and nobody else keeps a copy.
        rw [PortView.supplied_alone _ _ shared] at copy ⊢
        obtain ⟨elsewhere, copy⟩ := Finset.mem_erase.mp copy
        rcases alone shared other copy with mine | mine | condemned
        · exact absurd mine elsewhere
        · exact absurd mine different
        · exact .inr condemned
      · exact Finset.mem_insert_self ..

theorem snoopForward_sound {rspPort : Fin n}
    (conforms : ledger.Conforms blkSize (.snoopForward pkt rspPort))
    (taken : ledger.step blkSize (.snoopForward pkt rspPort) = some after) : after.Sound := by
  cases taken
  have before := sound (pkt.snoopLine blkSize)
  refine ledger.setView_sound sound _ _ _
    (SnoopFilter.updateSnoopForward_item blkSize ledger.filter pkt) ?_
  cases shared : pkt.hasSharers with
  | true =>
    unfold PortView.supplied
    rw [if_pos shared]
    exact before
  | false =>
    rw [PortView.supplied_alone _ _ shared]
    refine ⟨fun other copy => ?_, before.condemned, before.unanswered⟩
    obtain ⟨elsewhere, copy⟩ := Finset.mem_erase.mp copy
    rcases conforms shared other copy with mine | condemned
    · exact absurd mine elsewhere
    · exact .inr condemned

theorem response_sound {port : Fin n} {keeps : Bool}
    (conforms : ledger.Conforms blkSize (.response pkt port keeps))
    (taken : ledger.step blkSize (.response pkt port keeps) = some after) : after.Sound := by
  obtain ⟨filter, updated, rfl⟩ := Option.map_eq_some_iff.mp taken
  rw [toOption_some_iff] at updated
  have before := sound (pkt.snoopLine blkSize)
  cases cacheable : pkt.req.flags.uncacheable with
  | true =>
    have same : filter = ledger.filter := by
      simpa [SnoopFilter.updateResponse, cacheable] using updated.symm
    rw [if_pos rfl]
    exact ledger.setView_sound_same sound _ _ _ (by rw [same]) before
  | false =>
    have waits := before.unanswered (conforms cacheable)
    rw [if_neg Bool.false_ne_true]
    refine ledger.setView_sound sound _ _ _ (SnoopFilter.updateResponse_item blkSize cacheable waits
        updated) ?_
    unfold SnoopFilter.responseItem
    split
    · -- A maintenance response grants nothing; an invalidating one takes the copy.
      refine before.answered port false pkt.isInvalidate rfl (fun other copy different => ?_)
        fun stays had spared => ?_
      · refine (before.copies other copy).imp_left fun holds => ?_
        dsimp only
        split
        · exact Finset.mem_erase.mpr ⟨different, holds⟩
        · exact holds
      · rw [stays, if_neg Bool.false_ne_true]
        rcases had with never | copy
        · cases never
        · exact (before.copies port copy).resolve_right spared
    · refine before.answered port keeps false rfl (fun other copy _ => ?_) fun _ _ _ => ?_
      · exact (before.copies other copy).imp_left fun holds => Finset.mem_insert_of_mem holds
      · exact Finset.mem_insert_self ..

end Calls

theorem step_sound (ledger after : SnoopLedger n) (e : SnoopEvent n) (sound : ledger.Sound)
    (conforms : ledger.Conforms blkSize e) (taken : ledger.step blkSize e = some after) :
    after.Sound := by
  cases e with
  | request pkt port willRetry lost delayed =>
    exact ledger.request_sound blkSize after sound pkt taken
  | snoop pkt lost delayed => exact ledger.snoop_sound blkSize after sound pkt taken
  | snoopResponse pkt rspPort reqPort keeps =>
    exact ledger.snoopResponse_sound blkSize after sound pkt conforms taken
  | snoopForward pkt rspPort =>
    exact ledger.snoopForward_sound blkSize after sound pkt conforms taken
  | response pkt port keeps =>
    exact ledger.response_sound blkSize after sound pkt conforms taken

/-- In every state that conforming traffic reaches, a port with a copy of a line or a
request for it under way is in a mask of the line, and so among the ports that a
snoop of the line, or a request of another port, goes to. -/
theorem interested_ports_listed (events : List (SnoopEvent n)) (ledger : SnoopLedger n)
    (conforms : Runs.Along (step blkSize) (Conforms blkSize) ({} : SnoopLedger n) events)
    (ran : Runs.run (step blkSize) ({} : SnoopLedger n) events = some ledger)
    (line : SnoopLine) (port : Fin n)
    (interested : port ∈ (ledger.view line).copies ∨ port ∈ (ledger.view line).unanswered) :
    (port ∈ (ledger.filter.item line).holder ∨ port ∈ (ledger.filter.item line).requested) ∧
      (∀ pkt : Packet, pkt.snoopLine blkSize = line →
        port ∈ (ledger.filter.lookupSnoop blkSize pkt).2) ∧
      ∀ (pkt : Packet) (requester : Fin n) (after : SnoopFilter n) (dests : Finset (Fin n)),
        pkt.snoopLine blkSize = line → port ≠ requester →
        ledger.filter.lookupRequest blkSize pkt requester = .ok (after, dests) → port ∈ dests := by
  have keeps : ∀ (s : SnoopLedger n) (e : SnoopEvent n) (t : SnoopLedger n), s.Sound →
      s.Conforms blkSize e → s.step blkSize e = some t → t.Sound :=
    fun s e t sound ok taken => s.step_sound blkSize t e sound ok taken
  -- the ledger is sound after every run, and the filter answers from its entries
  have sound := Runs.run_invariant keeps _ ledger events empty_sound conforms ran
  have recorded := (sound line).listed port interested
  have listed : port ∈ ledger.filter.listed line := (SnoopFilter.mem_listed ..).mpr recorded
  refine ⟨recorded, fun pkt same => ?_, fun pkt requester after dests same different looked => ?_⟩
  · rw [SnoopFilter.lookupSnoop_dests, same]
    exact listed
  · rw [SnoopFilter.lookupRequest_dests looked, same]
    exact Finset.mem_erase.mpr ⟨different, listed⟩

/-- A packet for the line at address 0. -/
def linePkt (cmd : MemCmd) : Packet := Packet.ofBlock {} cmd 0 64

/-- One port reads a line, and passes it on to the other without sharers. -/
def passOn (first second : Fin n) : List (SnoopEvent n) :=
  [.request (linePkt .readSharedReq) first false ∅ ∅, .response (linePkt .readResp) first true,
    .request (linePkt .readExReq) second false ∅ ∅,
    .snoopResponse (linePkt .readExResp) first second true]

/-- The other then has the line, and a snoop from below goes there. -/
theorem passOn_listed : ∃ ledger,
    Runs.run (step 64) ({} : SnoopLedger 2) (passOn 0 1) = some ledger ∧
    1 ∈ (ledger.view ⟨0, false⟩).copies ∧
    1 ∈ (ledger.filter.lookupSnoop 64 (linePkt .readExReq)).2 := by
  refine ⟨_, rfl, by decide, ?_⟩
  refine (interested_ports_listed 64 (passOn 0 1) _ ?_ rfl ⟨0, false⟩ 1 (.inl (by decide))).2.1 _
    rfl
  refine Runs.along_cons rfl trivial ?_
  refine Runs.along_cons rfl (fun _ => by decide) ?_
  refine Runs.along_cons rfl trivial ?_
  exact Runs.along_cons rfl (fun _ => ⟨by decide, fun _ => by decide⟩) trivial

end SnoopLedger

end RasCache.Mem
