import RasCache.Mem.Packet
import Mathlib.Data.List.Basic

/-!
# The tag store

Model of `CacheBlk`, `BaseTags` and `BaseSetAssoc` (`mem/cache/tags`). The
indexing function and the replacement policy stay parameters: the policy has a
state of its own, which the tag store changes only through `touch`, `reset`,
`invalidate` and `getVictim`.
-/
namespace RasCache.Mem

/-- A line as the lookups name it: block address, secure bit and domain. -/
structure LineKey where
  blkAddr : Addr
  isSecure : Bool
  domainID : DomainID
deriving Repr, DecidableEq

/-- A cache block. The tag and the set it sits in give the block address back,
so the block keeps the address itself (`regenerateBlkAddr`). Of the data, `data`
is the byte at the one offset that is followed. -/
structure CacheBlk where
  key : LineKey := ⟨0, false, 0⟩
  valid : Bool := false
  readable : Bool := false
  writable : Bool := false
  dirty : Bool := false
  prefetched : Bool := false
  data : UInt8 := 0
deriving Repr, DecidableEq

variable {key : LineKey}

namespace CacheBlk

/-- `matchTag` and the comparison of the domain. -/
def holds (blk : CacheBlk) (key : LineKey) : Bool := blk.valid && decide (blk.key = key)

/-- `insert` and `setDomainID`. -/
def insert (key : LineKey) : CacheBlk := { key, valid := true }

def invalidate (_ : CacheBlk) : CacheBlk := {}

theorem holds_iff {blk : CacheBlk} : blk.holds key = true ↔ blk.valid = true ∧ blk.key = key := by
  simp [holds]

end CacheBlk

/-- A place in the tag array. -/
structure Place where
  set : Nat
  way : Nat
deriving Repr, DecidableEq

/-- A replacement policy over a state `R`, which also stands for the random
numbers a policy draws. `tick` is `curTick()`. -/
structure ReplacementPolicy (R : Type) where
  assoc : Nat
  setOf : Addr → Nat
  touch : R → Place → (tick : Nat) → R
  reset : R → Place → (tick : Nat) → R
  invalidate : R → Place → R
  getVictim : R → (set : Nat) → Nat × R
  victim_lt : ∀ r set, (getVictim r set).1 < assoc

/-- A cache of one block. -/
def oneBlock : ReplacementPolicy Unit where
  assoc := 1
  setOf := fun _ => 0
  touch := fun _ _ _ => ()
  reset := fun _ _ _ => ()
  invalidate := fun _ _ => ()
  getVictim := fun _ _ => (0, ())
  victim_lt := fun _ _ => by decide

structure Tags (R : Type) where
  blk : Place → CacheBlk
  repl : R

namespace Tags

variable {R : Type}

def setBlk (tags : Tags R) (place : Place) (blk : CacheBlk) : Tags R :=
  { tags with blk := Function.update tags.blk place blk }

@[simp] theorem setBlk_same (tags : Tags R) (place : Place) (blk : CacheBlk) :
    (tags.setBlk place blk).blk place = blk := by
  simp [setBlk]

variable {place : Place}

theorem setBlk_other (tags : Tags R) {other : Place} (blk : CacheBlk) (different : other ≠ place) :
    (tags.setBlk place blk).blk other = tags.blk other := by
  simp [setBlk, different]

/-- `BaseTags::findBlock` with a domain: the first way of the set that holds the
line. -/
def findBlock (rp : ReplacementPolicy R) (tags : Tags R) (key : LineKey) : Option Place :=
  ((List.range rp.assoc).map fun way => (⟨rp.setOf key.blkAddr, way⟩ : Place)).find?
    fun place => (tags.blk place).holds key

theorem findBlock_holds {rp : ReplacementPolicy R} {tags : Tags R}
    (found : tags.findBlock rp key = some place) : (tags.blk place).holds key = true := by
  unfold findBlock at found
  simpa using List.find?_some found

theorem findBlock_none_iff (rp : ReplacementPolicy R) (tags : Tags R) (key : LineKey) :
    tags.findBlock rp key = none ↔
      ∀ way < rp.assoc, (tags.blk ⟨rp.setOf key.blkAddr, way⟩).holds key = false := by
  simp [findBlock]

/-- `BaseSetAssoc::accessBlock`: a no-fill access leaves the replacement data
alone. -/
def accessBlock (rp : ReplacementPolicy R) (tags : Tags R) (key : LineKey) (noFill : Bool)
    (tick : Nat) : Option Place × Tags R :=
  match tags.findBlock rp key with
  | none => (none, tags)
  | some place =>
    (some place, if noFill then tags else { tags with repl := rp.touch tags.repl place tick })

/-- `BaseSetAssoc::findVictim`: the only block to evict is the victim itself. -/
def findVictim (rp : ReplacementPolicy R) (tags : Tags R) (addr : Addr) : Place × Tags R :=
  let set := rp.setOf addr
  let (way, repl) := rp.getVictim tags.repl set
  (⟨set, way⟩, { tags with repl })

def insertBlock (rp : ReplacementPolicy R) (tags : Tags R) (key : LineKey) (place : Place)
    (tick : Nat) : Tags R :=
  { tags.setBlk place (.insert key) with repl := rp.reset tags.repl place tick }

def invalidate (rp : ReplacementPolicy R) (tags : Tags R) (place : Place) : Tags R :=
  { tags.setBlk place (tags.blk place).invalidate with
    repl := rp.invalidate tags.repl place }

/-- No line is held twice. -/
def Unique (rp : ReplacementPolicy R) (tags : Tags R) : Prop :=
  ∀ p q, p.way < rp.assoc → q.way < rp.assoc → (tags.blk p).valid = true →
    (tags.blk q).valid = true → (tags.blk p).key = (tags.blk q).key → p = q

end Tags

end RasCache.Mem
