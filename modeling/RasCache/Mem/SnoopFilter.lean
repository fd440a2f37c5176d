import Mathlib.Data.Finset.Basic
import RasCache.Foundation.Outcomes
import RasCache.Mem.Cache

/-!
# The snoop filter

Model of `SnoopFilter` (`mem/snoop_filter.cc`). The filter keeps, for each line
and without regard to domains, the ports that hold it and the ports that wait
for a response. Every port of the crossbar is taken to be a snooping one. The
capacity check is left out.
-/
namespace RasCache.Mem

/-- The key of `cachedLocations`: the line address with the secure bit. -/
structure SnoopLine where
  addr : Addr
  isSecure : Bool
deriving Repr, DecidableEq

def Packet.snoopLine (blkSize : Nat) (pkt : Packet) : SnoopLine :=
  ⟨Packet.blkAlign pkt.addr blkSize, pkt.isSecure⟩

/-- A port is a position in the crossbar's list of ports. -/
structure SnoopItem (n : Nat) where
  requested : Finset (Fin n) := ∅
  holder : Finset (Fin n) := ∅
deriving DecidableEq

def SnoopItem.interested {n : Nat} (item : SnoopItem n) : Finset (Fin n) :=
  item.holder ∪ item.requested

structure SnoopFilter (n : Nat) where
  cachedLocations : SnoopLine → Option (SnoopItem n) := fun _ => none

namespace SnoopFilter

open Outcomes

variable {n : Nat}

def set (filter : SnoopFilter n) (line : SnoopLine) (item : SnoopItem n) : SnoopFilter n where
  cachedLocations := Function.update filter.cachedLocations line (some item)

def eraseIfNullEntry (filter : SnoopFilter n) (line : SnoopLine) : SnoopFilter n :=
  match filter.cachedLocations line with
  | some item =>
    if item.interested = ∅ then
      ⟨Function.update filter.cachedLocations line none⟩
    else filter
  | none => filter

/-- The ports the filter would snoop for the line. -/
def listed (filter : SnoopFilter n) (line : SnoopLine) : Finset (Fin n) :=
  match filter.cachedLocations line with
  | some item => item.interested
  | none => ∅

/-- The packet gets an entry: it comes from a cache. -/
def allocates (pkt : Packet) : Bool := !pkt.req.flags.uncacheable && pkt.fromCache

/-- The item after a request of the port. -/
def requestItem (item : SnoopItem n) (pkt : Packet) (port : Fin n) :
    Except Failure (SnoopItem n) :=
  if pkt.needsResponse then
    if !pkt.cacheResponding then
      if port ∈ item.requested then .error .assertion
      else .ok { item with requested := insert port item.requested }
    else if port ∈ item.holder then .ok item
    else .error .assertion
  else if !pkt.isEviction || port ∉ item.holder then .error .assertion
  -- the sender and the caches above it may not have the line any more
  else if !pkt.blockCached then .ok { item with holder := item.holder.erase port }
  else .ok item

/-- `lookupRequest`, with the ports to snoop. -/
def lookupRequest (blkSize : Nat) (filter : SnoopFilter n) (pkt : Packet) (port : Fin n) :
    Except Failure (SnoopFilter n × Finset (Fin n)) := do
  let line := pkt.snoopLine blkSize
  let dests := (filter.listed line).erase port
  if allocates pkt then
    let item ← requestItem ((filter.cachedLocations line).getD {}) pkt port
    .ok (filter.set line item, dests)
  else .ok (filter, dests)

/-- `finishRequest`: a request that is to be retried leaves the filter as it was. -/
def finishRequest (blkSize : Nat) (before after : SnoopFilter n) (pkt : Packet)
    (willRetry : Bool) : SnoopFilter n :=
  (if willRetry then before else after).eraseIfNullEntry (pkt.snoopLine blkSize)

/-- `lookupSnoop`, for a snoop from below. -/
def lookupSnoop (blkSize : Nat) (filter : SnoopFilter n) (pkt : Packet) :
    SnoopFilter n × Finset (Fin n) :=
  let line := pkt.snoopLine blkSize
  match filter.cachedLocations line with
  | none => (filter, ∅)
  | some item =>
    if pkt.isInvalidate && decide (item.requested = ∅) then
      ((filter.set line { item with holder := ∅ }).eraseIfNullEntry line, item.interested)
    else (filter, item.interested)

/-- `updateSnoopResponse`: a response without sharers passes the line on. -/
def updateSnoopResponse (blkSize : Nat) (filter : SnoopFilter n) (pkt : Packet)
    (rspPort reqPort : Fin n) : Except Failure (SnoopFilter n) :=
  if pkt.req.flags.uncacheable then .ok filter
  else
    let line := pkt.snoopLine blkSize
    let item := (filter.cachedLocations line).getD {}
    if rspPort ∉ item.holder || reqPort ∉ item.requested then .error .assertion
    else
      let holder := if pkt.hasSharers then item.holder else ∅
      .ok (filter.set line
        { requested := item.requested.erase reqPort, holder := insert reqPort holder })

/-- `updateSnoopForward`, for a snoop response that goes down. -/
def updateSnoopForward (blkSize : Nat) (filter : SnoopFilter n) (pkt : Packet) : SnoopFilter n :=
  let line := pkt.snoopLine blkSize
  match filter.cachedLocations line with
  | none => filter
  | some item =>
    if pkt.hasSharers then filter
    else (filter.set line { item with holder := ∅ }).eraseIfNullEntry line

/-- `updateResponse`. -/
def updateResponse (blkSize : Nat) (filter : SnoopFilter n) (pkt : Packet) (port : Fin n) :
    Except Failure (SnoopFilter n) :=
  let line := pkt.snoopLine blkSize
  if pkt.req.flags.uncacheable then .ok filter
  else
    match filter.cachedLocations line with
    | none => .ok filter
    | some item =>
      if port ∉ item.requested then .error .assertion
      else
        let requested := item.requested.erase port
        if pkt.req.isCacheMaintenance then
          let holder := if pkt.isInvalidate then item.holder.erase port else item.holder
          .ok ((filter.set line { requested, holder }).eraseIfNullEntry line)
        else .ok (filter.set line { requested, holder := insert port item.holder })

/-! ### The ports of a line -/

theorem listed_getD (filter : SnoopFilter n) (line : SnoopLine) :
    ((filter.cachedLocations line).getD {}).interested = filter.listed line := by
  unfold listed
  cases filter.cachedLocations line with
  | none => simp [SnoopItem.interested]
  | some => rfl

/-- What a packet of the port can do to the item. -/
inductive RequestCase (item : SnoopItem n) (pkt : Packet) (port : Fin n) : SnoopItem n → Prop
  | asked (needs : pkt.needsResponse = true) (fresh : pkt.cacheResponding = false)
      (unasked : port ∉ item.requested) :
    RequestCase item pkt port { item with requested := insert port item.requested }
  -- a cache above has promised the line
  | promised (needs : pkt.needsResponse = true) (responding : pkt.cacheResponding = true)
      (holds : port ∈ item.holder) : RequestCase item pkt port item
  | evicted (silent : pkt.needsResponse = false) (evicts : pkt.isEviction = true)
      (holds : port ∈ item.holder) (gone : pkt.blockCached = false) :
    RequestCase item pkt port { item with holder := item.holder.erase port }
  | cached (silent : pkt.needsResponse = false) (evicts : pkt.isEviction = true)
      (holds : port ∈ item.holder) (above : pkt.blockCached = true) :
    RequestCase item pkt port item

variable {pkt : Packet} {port : Fin n}

theorem requestItem_cases {item new : SnoopItem n}
    (requested : requestItem item pkt port = .ok new) : RequestCase item pkt port new := by
  unfold requestItem at requested
  split at requested
  next needs =>
    split at requested
    next fresh =>
      split at requested <;> cases requested
      next unasked => exact .asked needs (by simpa using fresh) unasked
    next responding =>
      split at requested <;> cases requested
      next holds => exact .promised needs (by simpa using responding) holds
  next silent =>
    have silent : pkt.needsResponse = false := by simpa using silent
    split at requested
    · cases requested
    next evicts =>
      simp only [Bool.or_eq_true, Bool.not_eq_true', decide_eq_true_eq, not_or, Bool.not_eq_false,
        Decidable.not_not] at evicts
      split at requested <;> cases requested
      next gone => exact .evicted silent evicts.1 evicts.2 (by simpa using gone)
      next above => exact .cached silent evicts.1 evicts.2 (by simpa using above)

/-- A request is snooped for at the listed ports other than its own. -/
theorem lookupRequest_dests {blkSize : Nat} {filter after : SnoopFilter n} {dests : Finset (Fin n)}
    (looked : filter.lookupRequest blkSize pkt port = .ok (after, dests)) :
    dests = (filter.listed (pkt.snoopLine blkSize)).erase port := by
  unfold lookupRequest at looked
  dsimp only at looked
  split at looked
  · obtain ⟨_, _, looked⟩ := bind_ok_iff.mp looked
    cases looked
    rfl
  · cases looked
    rfl

end SnoopFilter

end RasCache.Mem
