import Mathlib.Data.Finmap
import RasCache.Mem.SnoopFilter

/-!
# Retried requests in the snoop filter

`SnoopFilter` (`mem/snoop_filter.cc`) with its undo record: `lookupRequest` keeps
the entry it found or made and its earlier value in `reqLookupResult`, outside
the map, and `finishRequest` puts the value back if the crossbar has to retry.
The ports need not be snooping here, and the capacity check of `lookupSnoop` is
modelled. An iterator is the key of its entry, `none` the end of the map. The
last section relates the operations to those of `SnoopFilter`.
-/
namespace RasCache.Mem

/-- A CPU-side port of the crossbar. Only a snooping one has a bit in the masks. -/
structure ResponsePort (n : Nat) where
  localId : Option (Fin n)
deriving Repr, DecidableEq

namespace ResponsePort

variable {n : Nat}

def isSnooping (port : ResponsePort n) : Bool := port.localId.isSome

/-- `portToMask`: the mask of a port that does not snoop is zero. -/
def toMask (port : ResponsePort n) : Finset (Fin n) := port.localId.toFinset

theorem toMask_nonempty (port : ResponsePort n) (snooping : port.isSnooping = true) :
    port.toMask.Nonempty := by
  obtain ⟨i, isId⟩ := Option.isSome_iff_exists.mp snooping
  exact ⟨i, by simp [toMask, isId]⟩

end ResponsePort

abbrev SnoopFilterCache (n : Nat) := Finmap fun _ : SnoopLine => SnoopItem n

structure ReqLookupResult (n : Nat) where
  it : Option SnoopLine := none
  retryItem : SnoopItem n := {}

structure TrackedFilter (n : Nat) where
  cachedLocations : SnoopFilterCache n := ∅
  reqLookupResult : ReqLookupResult n := {}

namespace SnoopFilterCache

variable {n : Nat}

def eraseIfNullEntry (entries : SnoopFilterCache n) (line : SnoopLine) : SnoopFilterCache n :=
  match entries.lookup line with
  | some item => if item.interested = ∅ then entries.erase line else entries
  | none => entries

/-- No entry has both masks empty. -/
def NoNullEntry (entries : SnoopFilterCache n) : Prop :=
  ∀ line item, entries.lookup line = some item → item.interested ≠ ∅

/-! ### Writing an entry -/

theorem lookup_eraseIfNullEntry_other (entries : SnoopFilterCache n) {line other : SnoopLine}
    (different : other ≠ line) :
    (eraseIfNullEntry entries line).lookup other = entries.lookup other := by
  unfold eraseIfNullEntry
  split
  · split
    · exact Finmap.lookup_erase_ne different
    · rfl
  · rfl

/-- What is written to an entry stays there unless it is empty. -/
theorem lookup_eraseIfNullEntry_insert (entries : SnoopFilterCache n) (line : SnoopLine)
    (item : SnoopItem n) : (eraseIfNullEntry (entries.insert line item) line).lookup line =
      if item.interested = ∅ then none else some item := by
  simp only [eraseIfNullEntry, Finmap.lookup_insert]
  split
  · exact Finmap.lookup_erase line _
  · exact Finmap.lookup_insert _

theorem noNullEntry_empty : NoNullEntry (∅ : SnoopFilterCache n) := by
  intro _ _ found
  simp at found

variable {entries : SnoopFilterCache n}

section

variable (noNull : NoNullEntry entries) (line : SnoopLine)
include noNull line

theorem NoNullEntry.insert (item : SnoopItem n) (wanted : item.interested ≠ ∅) :
    NoNullEntry (entries.insert line item) := by
  intro other found isFound
  by_cases same : other = line
  · subst same
    rw [Finmap.lookup_insert] at isFound
    cases isFound
    exact wanted
  · rw [Finmap.lookup_insert_of_ne _ same] at isFound
    exact noNull other found isFound

/-- Whatever is written to an entry, `eraseIfNullEntry` behind it leaves no empty one. -/
theorem NoNullEntry.written (item : SnoopItem n) :
    NoNullEntry (eraseIfNullEntry (entries.insert line item) line) := by
  intro other found isFound
  by_cases same : other = line
  · subst same
    rw [lookup_eraseIfNullEntry_insert] at isFound
    split at isFound
    · cases isFound
    next wanted =>
      cases isFound
      exact wanted
  · rw [lookup_eraseIfNullEntry_other _ same, Finmap.lookup_insert_of_ne _ same] at isFound
    exact noNull other found isFound

/-- Putting the value an entry had back, where an entry that was not there had
the empty value, leaves the map as it was. -/
theorem NoNullEntry.restored {after : SnoopFilterCache n}
    (others : ∀ other, other ≠ line → after.lookup other = entries.lookup other) :
    eraseIfNullEntry (after.insert line ((entries.lookup line).getD {})) line = entries := by
  refine Finmap.ext_lookup fun other => ?_
  by_cases same : other = line
  · subst same
    rw [lookup_eraseIfNullEntry_insert]
    cases found : entries.lookup other with
    | none => simp [SnoopItem.interested]
    | some item => simp [noNull other item found]
  · rw [lookup_eraseIfNullEntry_other _ same, Finmap.lookup_insert_of_ne _ same, others other same]

end

end SnoopFilterCache

namespace TrackedFilter

open Outcomes SnoopFilterCache

variable {n : Nat}

/-! ### The operations -/

/-- The item after a request of the port, as `lookupRequest` marks it. -/
def requestItem (item : SnoopItem n) (pkt : Packet) (reqPort : Finset (Fin n)) :
    Except Failure (SnoopItem n) :=
  if pkt.needsResponse then
    if !pkt.cacheResponding then
      -- at most one request for each line and port
      if (item.requested ∩ reqPort).Nonempty then .error .assertion
      else .ok { item with requested := item.requested ∪ reqPort }
    else if item.holder ∩ reqPort = ∅ then .error .assertion
    else .ok item
  else if !pkt.isEviction then .error .assertion
  else if item.holder ∩ reqPort = ∅ then .error .assertion
  else if !pkt.blockCached then .ok { item with holder := item.holder \ reqPort }
  else .ok item

/-- The packet gets an entry: it comes from a cache that is snooped. -/
def allocates (pkt : Packet) (port : ResponsePort n) : Bool :=
  !pkt.req.flags.uncacheable && port.isSnooping && pkt.fromCache

/-- `lookupRequest`, with the ports to snoop. -/
def lookupRequest (blkSize : Nat) (filter : TrackedFilter n) (pkt : Packet)
    (port : ResponsePort n) : Except Failure (TrackedFilter n × Finset (Fin n)) := do
  let line := pkt.snoopLine blkSize
  let found := filter.cachedLocations.lookup line
  if found.isNone && !allocates pkt port then
    .ok ({ filter with reqLookupResult := { filter.reqLookupResult with it := none } }, ∅)
  else
    -- a new entry is made with both masks empty
    let item := found.getD {}
    let dests := item.interested \ port.toMask
    let reqLookupResult : ReqLookupResult n := { it := some line, retryItem := item }
    if !allocates pkt port then .ok ({ filter with reqLookupResult }, dests)
    else
      let marked ← requestItem item pkt port.toMask
      let cachedLocations := filter.cachedLocations.insert line marked
      .ok ({ cachedLocations, reqLookupResult }, dests)

def finishRequest (blkSize : Nat) (filter : TrackedFilter n) (willRetry : Bool) (addr : Addr)
    (isSecure : Bool) : Except Failure (TrackedFilter n) :=
  match filter.reqLookupResult.it with
  | none => .ok filter
  | some it =>
    match filter.cachedLocations.lookup it with
    -- the iterator is not valid any more
    | none => .error .assertion
    | some item =>
      if it ≠ ⟨Packet.blkAlign addr blkSize, isSecure⟩ then .error .assertion
      else
        let item := if willRetry then filter.reqLookupResult.retryItem else item
        .ok { filter with
          cachedLocations := eraseIfNullEntry (filter.cachedLocations.insert it item) it }

/-- `lookupSnoop`, for a snoop from below. -/
def lookupSnoop (blkSize maxEntryCount : Nat) (filter : TrackedFilter n) (pkt : Packet) :
    Except Failure (TrackedFilter n × Finset (Fin n)) :=
  let line := pkt.snoopLine blkSize
  if !pkt.isRequest then .error .assertion
  else
    match filter.cachedLocations.lookup line with
    | none =>
      if maxEntryCount ≤ filter.cachedLocations.keys.card then .error .assertion
      else .ok (filter, ∅)
    | some item =>
      if !(pkt.isWriteback || pkt.req.flags.uncacheable || pkt.isInvalidate == pkt.needsWritable ||
          pkt.req.isCacheMaintenance) then .error .assertion
      else if pkt.isInvalidate && decide (item.requested = ∅) then
        .ok ({ filter with
          cachedLocations := eraseIfNullEntry
            (filter.cachedLocations.insert line { item with holder := ∅ }) line }, item.interested)
      else .ok (filter, item.interested)

/-- `updateSnoopResponse`: a response without sharers passes the line on. -/
def updateSnoopResponse (blkSize : Nat) (filter : TrackedFilter n) (pkt : Packet)
    (rspPort reqPort : ResponsePort n) : Except Failure (TrackedFilter n) :=
  if !pkt.isResponse || !pkt.cacheResponding then .error .assertion
  else if pkt.req.flags.uncacheable || !reqPort.isSnooping then .ok filter
  else
    let line := pkt.snoopLine blkSize
    let item := (filter.cachedLocations.lookup line).getD {}
    if item.holder ∩ rspPort.toMask = ∅ then .error .assertion
    else if item.requested ∩ reqPort.toMask = ∅ then .error .assertion
    else if pkt.isWriteback then .error .assertion
    else
      let holder := if pkt.hasSharers then item.holder else ∅
      .ok { filter with
        cachedLocations := filter.cachedLocations.insert line
          { requested := item.requested \ reqPort.toMask, holder := holder ∪ reqPort.toMask } }

/-- `updateSnoopForward`, for a snoop response that goes down. -/
def updateSnoopForward (blkSize : Nat) (filter : TrackedFilter n) (pkt : Packet) :
    Except Failure (TrackedFilter n) :=
  let line := pkt.snoopLine blkSize
  if !pkt.isResponse || !pkt.cacheResponding then .error .assertion
  else
    match filter.cachedLocations.lookup line with
    | none => .ok filter
    | some item =>
      if pkt.hasSharers then .ok filter
      else
        .ok { filter with
          cachedLocations := eraseIfNullEntry
            (filter.cachedLocations.insert line { item with holder := ∅ }) line }

def updateResponse (blkSize : Nat) (filter : TrackedFilter n) (pkt : Packet)
    (port : ResponsePort n) : Except Failure (TrackedFilter n) :=
  let line := pkt.snoopLine blkSize
  if !pkt.isResponse then .error .assertion
  else if pkt.req.flags.uncacheable || !port.isSnooping then .ok filter
  else
    match filter.cachedLocations.lookup line with
    | none => .ok filter
    | some item =>
      if item.requested ∩ port.toMask = ∅ then .error .assertion
      else
        let requested := item.requested \ port.toMask
        if pkt.req.isCacheMaintenance then
          let holder := if pkt.isInvalidate then item.holder \ port.toMask else item.holder
          .ok { filter with
            cachedLocations := eraseIfNullEntry
              (filter.cachedLocations.insert line { requested, holder }) line }
        else
          .ok { filter with
            cachedLocations := filter.cachedLocations.insert line
              { requested, holder := item.holder ∪ port.toMask } }

/-- The operations of the crossbar on its filter. A request is looked up and
finished before the next operation. -/
inductive Operation (n : Nat) where
  | request (pkt : Packet) (port : ResponsePort n) (willRetry : Bool)
  | snoop (pkt : Packet)
  | snoopResponse (pkt : Packet) (rspPort reqPort : ResponsePort n)
  | snoopForward (pkt : Packet)
  | response (pkt : Packet) (port : ResponsePort n)

def request (blkSize : Nat) (filter : TrackedFilter n) (pkt : Packet) (port : ResponsePort n)
    (willRetry : Bool) : Except Failure (TrackedFilter n) := do
  let (looked, _) ← filter.lookupRequest blkSize pkt port
  looked.finishRequest blkSize willRetry pkt.addr pkt.isSecure

/-- An operation that completes; `none` for one that panics. -/
def step (blkSize maxEntryCount : Nat) (filter : TrackedFilter n) :
    Operation n → Option (TrackedFilter n)
  | .request pkt port willRetry => (filter.request blkSize pkt port willRetry).toOption
  | .snoop pkt => ((filter.lookupSnoop blkSize maxEntryCount pkt).map Prod.fst).toOption
  | .snoopResponse pkt rspPort reqPort =>
    (filter.updateSnoopResponse blkSize pkt rspPort reqPort).toOption
  | .snoopForward pkt => (filter.updateSnoopForward blkSize pkt).toOption
  | .response pkt port => (filter.updateResponse blkSize pkt port).toOption

/-! ### What a lookup leaves behind -/

/-- `lookupRequest` changes at most the entry it leaves in the undo record,
together with the value the entry had. -/
inductive LookupCase (blkSize : Nat) (filter : TrackedFilter n) (pkt : Packet)
    (port : ResponsePort n) : TrackedFilter n → Prop
  | passed (silent : allocates pkt port = false)
      (missed : filter.cachedLocations.lookup (pkt.snoopLine blkSize) = none)
      (retryItem : SnoopItem n) :
    LookupCase blkSize filter pkt port
      { filter with reqLookupResult := { it := none, retryItem } }
  | kept (silent : allocates pkt port = false) (item : SnoopItem n)
      (found : filter.cachedLocations.lookup (pkt.snoopLine blkSize) = some item) :
    LookupCase blkSize filter pkt port
      { filter with
        reqLookupResult := { it := some (pkt.snoopLine blkSize), retryItem := item } }
  | marked (allocated : allocates pkt port = true) (item : SnoopItem n)
      (requested : requestItem ((filter.cachedLocations.lookup (pkt.snoopLine blkSize)).getD {}) pkt
        port.toMask = .ok item) :
    LookupCase blkSize filter pkt port
      { cachedLocations := filter.cachedLocations.insert (pkt.snoopLine blkSize) item
        reqLookupResult :=
          { it := some (pkt.snoopLine blkSize)
            retryItem := (filter.cachedLocations.lookup (pkt.snoopLine blkSize)).getD {} } }

variable {blkSize maxEntryCount : Nat} {filter after : TrackedFilter n} {pkt : Packet}
  {port : ResponsePort n} {i : Fin n}

variable {dests : Finset (Fin n)}

theorem lookupRequest_cases (looked : filter.lookupRequest blkSize pkt port = .ok (after, dests)) :
    LookupCase blkSize filter pkt port after := by
  unfold lookupRequest at looked
  dsimp only at looked
  split at looked
  next passes =>
    simp only [Bool.and_eq_true, Option.isNone_iff_eq_none, Bool.not_eq_true'] at passes
    cases looked
    exact .passed passes.2 passes.1 _
  next listed =>
    split at looked
    next keeps =>
      simp only [keeps, Bool.and_true, Option.isNone_iff_eq_none] at listed
      obtain ⟨item, found⟩ := Option.ne_none_iff_exists'.mp listed
      rw [found] at looked
      cases looked
      exact .kept (by simpa using keeps) item found
    next allocated =>
      obtain ⟨item, requested, looked⟩ := bind_ok_iff.mp looked
      cases looked
      exact .marked (by simpa using allocated) item requested

/-- The check of `finishRequest` passes right after the lookup, and the entry of
the lookup is written. -/
theorem finishRequest_of_looked {item : SnoopItem n} (willRetry : Bool)
    (iterator : filter.reqLookupResult.it = some (pkt.snoopLine blkSize))
    (found : filter.cachedLocations.lookup (pkt.snoopLine blkSize) = some item) :
    filter.finishRequest blkSize willRetry pkt.addr pkt.isSecure =
      .ok { filter with
        cachedLocations := eraseIfNullEntry (filter.cachedLocations.insert (pkt.snoopLine blkSize)
          (if willRetry then filter.reqLookupResult.retryItem else item))
          (pkt.snoopLine blkSize) } := by
  simp only [finishRequest, iterator, found]
  exact if_neg (by simp [Packet.snoopLine])

section

variable (noNull : NoNullEntry filter.cachedLocations)
include noNull

/-- A retried request leaves the map of the filter as it was. -/
theorem finishRequest_restores (looked : LookupCase blkSize filter pkt port after) :
    ∃ restored, after.finishRequest blkSize true pkt.addr pkt.isSecure = .ok restored ∧
      restored.cachedLocations = filter.cachedLocations := by
  cases looked with
  | passed => exact ⟨_, rfl, rfl⟩
  | kept _ _ found =>
    refine ⟨_, finishRequest_of_looked true rfl found, ?_⟩
    have restored := noNull.restored (pkt.snoopLine blkSize) fun _ _ => rfl
    rw [found] at restored
    exact restored
  | marked =>
    refine ⟨_, finishRequest_of_looked true rfl (Finmap.lookup_insert _), ?_⟩
    exact noNull.restored (pkt.snoopLine blkSize) fun _ different =>
      Finmap.lookup_insert_of_ne _ different

/-! ### No empty entries -/

theorem request_noNullEntry {willRetry : Bool}
    (done : filter.request blkSize pkt port willRetry = .ok after) :
    NoNullEntry after.cachedLocations := by
  obtain ⟨⟨_, _⟩, isLooked, done⟩ := bind_ok_iff.mp done
  dsimp only at done
  cases lookupRequest_cases isLooked with
  | passed =>
    cases done
    exact noNull
  | kept _ _ found =>
    cases done.symm.trans (finishRequest_of_looked willRetry rfl found)
    exact noNull.written _ _
  | marked =>
    cases done.symm.trans
      (finishRequest_of_looked willRetry rfl (Finmap.lookup_insert _))
    -- the marks of the lookup are overwritten by what the finish leaves
    dsimp only
    rw [Finmap.insert_insert]
    exact noNull.written _ _

theorem lookupSnoop_noNullEntry
    (done : filter.lookupSnoop blkSize maxEntryCount pkt = .ok (after, dests)) :
    NoNullEntry after.cachedLocations := by
  unfold lookupSnoop at done
  dsimp only at done
  split at done
  · cases done
  · split at done
    · split at done <;> cases done
      exact noNull
    · split at done
      · cases done
      · split at done <;> cases done
        · exact noNull.written _ _
        · exact noNull

theorem updateSnoopResponse_noNullEntry {rspPort reqPort : ResponsePort n}
    (done : filter.updateSnoopResponse blkSize pkt rspPort reqPort = .ok after) :
    NoNullEntry after.cachedLocations := by
  unfold updateSnoopResponse at done
  dsimp only at done
  split at done
  · cases done
  split at done
  · cases done
    exact noNull
  next allocates =>
    simp only [Bool.or_eq_true, Bool.not_eq_true', not_or, Bool.not_eq_false] at allocates
    split at done
    · cases done
    split at done
    · cases done
    split at done
    · cases done
    · cases done
      -- the requester is a holder now
      refine noNull.insert _ _ (Finset.nonempty_iff_ne_empty.mp ?_)
      exact (reqPort.toMask_nonempty allocates.2).mono
        (Finset.subset_union_right.trans Finset.subset_union_left)

theorem updateSnoopForward_noNullEntry (done : filter.updateSnoopForward blkSize pkt = .ok after) :
    NoNullEntry after.cachedLocations := by
  unfold updateSnoopForward at done
  dsimp only at done
  split at done
  · cases done
  split at done
  · cases done
    exact noNull
  · split at done <;> cases done
    · exact noNull
    · exact noNull.written _ _

theorem updateResponse_noNullEntry (done : filter.updateResponse blkSize pkt port = .ok after) :
    NoNullEntry after.cachedLocations := by
  unfold updateResponse at done
  dsimp only at done
  split at done
  · cases done
  split at done
  · cases done
    exact noNull
  next allocates =>
    simp only [Bool.or_eq_true, Bool.not_eq_true', not_or, Bool.not_eq_false] at allocates
    split at done
    · cases done
      exact noNull
    · split at done
      · cases done
      split at done
      · cases done
        exact noNull.written _ _
      · cases done
        refine noNull.insert _ _ (Finset.nonempty_iff_ne_empty.mp ?_)
        exact (port.toMask_nonempty allocates.2).mono
          (Finset.subset_union_right.trans Finset.subset_union_left)

theorem step_noNullEntry {op : Operation n}
    (done : filter.step blkSize maxEntryCount op = some after) :
    NoNullEntry after.cachedLocations := by
  cases op <;> replace done := toOption_some_iff.mp done
  case request pkt port willRetry =>
    exact request_noNullEntry noNull done
  case snoop pkt =>
    obtain ⟨⟨_, _⟩, looked, rfl⟩ := map_ok_iff.mp done
    exact lookupSnoop_noNullEntry noNull looked
  case snoopResponse pkt rspPort reqPort =>
    exact updateSnoopResponse_noNullEntry noNull done
  case snoopForward pkt => exact updateSnoopForward_noNullEntry noNull done
  case response pkt port =>
    exact updateResponse_noNullEntry noNull done

theorem run_noNullEntry {ops : List (Operation n)}
    (ran : Runs.run (step blkSize maxEntryCount) filter ops = some after) :
    NoNullEntry after.cachedLocations :=
  Runs.run_invariant (fun _ _ _ noNull _ done => step_noNullEntry noNull done) filter after ops
    noNull (Runs.along_trivial _ _) ran

end

/-- In a filter without empty entries a request that is retried is undone, and
whatever operations complete leave no empty entry. -/
theorem retry_rolls_back (blkSize maxEntryCount : Nat) (filter : TrackedFilter n)
    (noNull : NoNullEntry filter.cachedLocations) :
    (∀ pkt port looked dests, filter.lookupRequest blkSize pkt port = .ok (looked, dests) →
      ∃ restored, looked.finishRequest blkSize true pkt.addr pkt.isSecure = .ok restored ∧
        restored.cachedLocations = filter.cachedLocations) ∧
    ∀ ops after, Runs.run (step blkSize maxEntryCount) filter ops = some after →
      NoNullEntry after.cachedLocations := by
  refine ⟨fun pkt port looked dests isLooked => ?_, fun ops after ran => ?_⟩
  · exact finishRequest_restores noNull (lookupRequest_cases isLooked)
  · exact run_noNullEntry noNull ran

/-- The lookup of a first request makes an entry; the retry takes it out again,
and the entry it leaves when it gets through is not empty. -/
theorem retry_rolls_back_new_entry :
    let pkt := Packet.ofBlock {} .readSharedReq 64 64
    let port : ResponsePort 2 := ⟨some 0⟩
    (∃ looked dests, lookupRequest 64 {} pkt port = .ok (looked, dests) ∧
      looked.cachedLocations.lookup ⟨64, false⟩ = some { requested := {0} } ∧
      ∃ restored, looked.finishRequest 64 true pkt.addr pkt.isSecure = .ok restored ∧
        restored.cachedLocations = ∅) ∧
    ∃ after, Runs.run (step 64 4) {} [.request pkt port true, .request pkt port false] =
      some after ∧ NoNullEntry after.cachedLocations := by
  have rolledBack := retry_rolls_back 64 4 ({} : TrackedFilter 2) noNullEntry_empty
  refine ⟨⟨_, _, rfl, by decide, rolledBack.1 _ ⟨some 0⟩ _ _ rfl⟩, _, rfl, ?_⟩
  exact rolledBack.2
    [.request (Packet.ofBlock {} .readSharedReq 64 64) ⟨some 0⟩ true,
      .request (Packet.ofBlock {} .readSharedReq 64 64) ⟨some 0⟩ false] _ rfl

/-! ### The filter without the undo record -/

open ResponsePort

def toFilter (entries : SnoopFilterCache n) : SnoopFilter n := ⟨fun line => entries.lookup line⟩

theorem toFilter_insert (entries : SnoopFilterCache n) (line : SnoopLine) (item : SnoopItem n) :
    toFilter (entries.insert line item) = (toFilter entries).set line item := by
  simp only [toFilter, SnoopFilter.set, SnoopFilter.mk.injEq]
  funext other
  by_cases same : other = line
  · subst same
    simp
  · simp [Finmap.lookup_insert_of_ne _ same, same]

theorem toFilter_eraseIfNullEntry (entries : SnoopFilterCache n) (line : SnoopLine) :
    toFilter (eraseIfNullEntry entries line) = (toFilter entries).eraseIfNullEntry line := by
  simp only [toFilter, eraseIfNullEntry, SnoopFilter.eraseIfNullEntry]
  cases entries.lookup line with
  | none => rfl
  | some item =>
    dsimp only
    split
    · simp only [SnoopFilter.mk.injEq]
      funext other
      by_cases same : other = line
      · subst same
        simp
      · simp [Finmap.lookup_erase_ne same, same]
    · rfl

/-- Putting back what the entry had, or the empty value of an entry that was not
there, comes to erasing the entry if it is empty. -/
theorem set_getD_eraseIfNullEntry (filter : SnoopFilter n) (line : SnoopLine) :
    (filter.set line ((filter.cachedLocations line).getD {})).eraseIfNullEntry line =
      filter.eraseIfNullEntry line := by
  have same := Function.update_eq_self line filter.cachedLocations
  cases found : filter.cachedLocations line with
  | none =>
    rw [found] at same
    simp [SnoopFilter.eraseIfNullEntry, SnoopFilter.set, found, SnoopItem.interested, same]
  | some item =>
    rw [found] at same
    rw [Option.getD_some, SnoopFilter.set, same]

theorem inter_toMask (mask : Finset (Fin n)) (i : Fin n) :
    mask ∩ toMask ⟨some i⟩ = ∅ ↔ i ∉ mask := by
  rw [Finset.inter_comm, ← Finset.disjoint_iff_inter_eq_empty]
  exact Finset.disjoint_singleton_left

theorem union_toMask (mask : Finset (Fin n)) (i : Fin n) :
    mask ∪ toMask ⟨some i⟩ = insert i mask := by
  rw [Finset.union_comm]
  rfl

theorem sdiff_toMask (mask : Finset (Fin n)) (i : Fin n) : mask \ toMask ⟨some i⟩ = mask.erase i :=
  Finset.sdiff_singleton_eq_erase i mask

/-- With the mask of one port the tests are tests for its bit. -/
theorem requestItem_single (item : SnoopItem n) (pkt : Packet) (i : Fin n) :
    requestItem item pkt (toMask ⟨some i⟩) = SnoopFilter.requestItem item pkt i := by
  simp only [requestItem, SnoopFilter.requestItem, Finset.nonempty_iff_ne_empty, ne_eq,
    inter_toMask, not_not, union_toMask, sdiff_toMask]
  by_cases holds : i ∈ item.holder <;> cases pkt.isEviction <;> simp [holds]

theorem lookupRequest_snooping (looked : LookupCase blkSize filter pkt ⟨some i⟩ after) :
    (toFilter filter.cachedLocations).lookupRequest blkSize pkt i =
      .ok (toFilter after.cachedLocations,
        ((toFilter filter.cachedLocations).listed (pkt.snoopLine blkSize)).erase i) := by
  have allocating : allocates pkt (⟨some i⟩ : ResponsePort n) = SnoopFilter.allocates pkt := by
    simp [allocates, isSnooping, SnoopFilter.allocates]
  cases looked with
  | passed silent | kept silent =>
    rw [allocating] at silent
    simp only [SnoopFilter.lookupRequest, silent]
    rfl
  | marked allocated item requested =>
    rw [allocating] at allocated
    have requested : SnoopFilter.requestItem (((toFilter filter.cachedLocations).cachedLocations
          (pkt.snoopLine blkSize)).getD {}) pkt i =
          .ok item :=
      (requestItem_single _ pkt i).symm.trans requested
    rw [SnoopFilter.lookupRequest, if_pos allocated, requested, toFilter_insert]
    rfl

/-- A request of a snooping port, looked up and finished, is what the filter
without the undo record makes of it. -/
theorem request_refines {willRetry : Bool}
    (done : filter.request blkSize pkt ⟨some i⟩ willRetry = .ok after) :
    ∃ looked dests, (toFilter filter.cachedLocations).lookupRequest blkSize pkt i =
        .ok (looked, dests) ∧ toFilter after.cachedLocations = SnoopFilter.finishRequest blkSize
        (toFilter filter.cachedLocations) looked pkt willRetry := by
  obtain ⟨⟨looked, dests⟩, isLooked, done⟩ := bind_ok_iff.mp done
  have outcome := lookupRequest_cases isLooked
  refine ⟨_, _, lookupRequest_snooping outcome, ?_⟩
  have back : ((toFilter filter.cachedLocations).set (pkt.snoopLine blkSize)
      ((filter.cachedLocations.lookup (pkt.snoopLine blkSize)).getD {})).eraseIfNullEntry
        (pkt.snoopLine blkSize) =
      (toFilter filter.cachedLocations).eraseIfNullEntry (pkt.snoopLine blkSize) :=
    set_getD_eraseIfNullEntry _ _
  cases outcome with
  | passed silent missed =>
    cases done
    simp [SnoopFilter.finishRequest, SnoopFilter.eraseIfNullEntry, toFilter, missed]
  | kept silent item found =>
    cases done.symm.trans (finishRequest_of_looked willRetry rfl found)
    rw [found] at back
    simpa [toFilter_eraseIfNullEntry, toFilter_insert, SnoopFilter.finishRequest] using back
  | marked allocated item requested =>
    cases done.symm.trans (finishRequest_of_looked willRetry rfl (Finmap.lookup_insert _))
    cases willRetry with
    | false => simp [toFilter_eraseIfNullEntry, toFilter_insert, SnoopFilter.finishRequest,
        SnoopFilter.set]
    | true => simpa [toFilter_eraseIfNullEntry, toFilter_insert, SnoopFilter.finishRequest,
        SnoopFilter.set] using back

theorem toFilter_apply (entries : SnoopFilterCache n) (line : SnoopLine) :
    (toFilter entries).cachedLocations line = entries.lookup line := rfl

-- the other operations have the same branches, so every case is read off both sides

theorem lookupSnoop_refines
    (done : filter.lookupSnoop blkSize maxEntryCount pkt = .ok (after, dests)) :
    (toFilter filter.cachedLocations).lookupSnoop blkSize pkt =
      (toFilter after.cachedLocations, dests) := by
  simp only [lookupSnoop, SnoopFilter.lookupSnoop, toFilter_apply] at done ⊢
  repeat' split at done <;> try cases done
  all_goals simp_all [toFilter_eraseIfNullEntry, toFilter_insert]

theorem updateSnoopForward_refines (done : filter.updateSnoopForward blkSize pkt = .ok after) :
    (toFilter filter.cachedLocations).updateSnoopForward blkSize pkt =
      toFilter after.cachedLocations := by
  simp only [updateSnoopForward, SnoopFilter.updateSnoopForward, toFilter_apply] at done ⊢
  repeat' split at done <;> try cases done
  all_goals simp_all [toFilter_eraseIfNullEntry, toFilter_insert]

theorem updateSnoopResponse_refines {j : Fin n}
    (done : filter.updateSnoopResponse blkSize pkt ⟨some i⟩ ⟨some j⟩ = .ok after) :
    (toFilter filter.cachedLocations).updateSnoopResponse blkSize pkt i j =
      .ok (toFilter after.cachedLocations) := by
  simp only [updateSnoopResponse, SnoopFilter.updateSnoopResponse, toFilter_apply, inter_toMask,
    union_toMask, sdiff_toMask] at done ⊢
  repeat' split at done <;> try cases done
  all_goals simp_all [toFilter_insert, isSnooping]

theorem updateResponse_refines (done : filter.updateResponse blkSize pkt ⟨some i⟩ = .ok after) :
    (toFilter filter.cachedLocations).updateResponse blkSize pkt i =
      .ok (toFilter after.cachedLocations) := by
  simp only [updateResponse, SnoopFilter.updateResponse, toFilter_apply, inter_toMask,
    union_toMask, sdiff_toMask] at done ⊢
  repeat' split at done <;> try cases done
  all_goals simp_all [toFilter_eraseIfNullEntry, toFilter_insert, isSnooping]

/-- An operation on the filter without the undo record, which has snooping ports only. -/
def perform (blkSize : Nat) (filter : SnoopFilter n) : Operation n → Option (SnoopFilter n)
  | .request pkt ⟨some i⟩ willRetry =>
    (filter.lookupRequest blkSize pkt i).toOption.map fun looked =>
      .finishRequest blkSize filter looked.1 pkt willRetry
  | .snoop pkt => some (filter.lookupSnoop blkSize pkt).1
  | .snoopResponse pkt ⟨some i⟩ ⟨some j⟩ => (filter.updateSnoopResponse blkSize pkt i j).toOption
  | .snoopForward pkt => some (filter.updateSnoopForward blkSize pkt)
  | .response pkt ⟨some i⟩ => (filter.updateResponse blkSize pkt i).toOption
  | _ => none

def Operation.Snooping : Operation n → Prop
  | .request _ port _ | .response _ port => port.isSnooping = true
  | .snoopResponse _ rspPort reqPort => rspPort.isSnooping = true ∧ reqPort.isSnooping = true
  | .snoop _ | .snoopForward _ => True

theorem step_refines {op : Operation n} (snooping : op.Snooping)
    (done : filter.step blkSize maxEntryCount op = some after) :
    perform blkSize (toFilter filter.cachedLocations) op =
      some (toFilter after.cachedLocations) := by
  cases op with
  | request _ port =>
    obtain ⟨_ | i⟩ := port
    · cases snooping
    obtain ⟨_, _, looked, finished⟩ := request_refines (toOption_some_iff.mp done)
    simp [perform, looked, Except.toOption, finished]
  | snoop =>
    obtain ⟨⟨_, _⟩, looked, rfl⟩ := map_ok_iff.mp (toOption_some_iff.mp done)
    simp [perform, lookupSnoop_refines looked]
  | snoopResponse _ rspPort reqPort =>
    obtain ⟨_ | i⟩ := rspPort
    · cases snooping.1
    obtain ⟨_ | j⟩ := reqPort
    · cases snooping.2
    simp [perform, updateSnoopResponse_refines (toOption_some_iff.mp done), Except.toOption]
  | snoopForward =>
    simp [perform, updateSnoopForward_refines (toOption_some_iff.mp done)]
  | response _ port =>
    obtain ⟨_ | i⟩ := port
    · cases snooping
    simp [perform, updateResponse_refines (toOption_some_iff.mp done), Except.toOption]

/-- Every run of snooping ports is a run of the filter without the undo record. -/
theorem run_refines {ops : List (Operation n)} (snooping : ∀ op ∈ ops, op.Snooping)
    (ran : Runs.run (step blkSize maxEntryCount) filter ops = some after) :
    Runs.run (perform blkSize) (toFilter filter.cachedLocations) ops =
      some (toFilter after.cachedLocations) := by
  induction ops generalizing filter with
  | nil =>
    cases ran
    rfl
  | cons op ops ih =>
    obtain ⟨next, taken, ran⟩ := Runs.run_cons_iff.mp ran
    exact Runs.run_cons_iff.mpr ⟨_, step_refines (snooping op List.mem_cons_self) taken,
      ih (fun op mem => snooping op (List.mem_cons_of_mem _ mem)) ran⟩

end TrackedFilter

end RasCache.Mem
