import RasCache.Foundation.Runs
import RasCache.Foundation.WordFields
import RasCache.Mem.Tags
import Mathlib.Data.List.FinRange
import Mathlib.Data.Nat.Bitwise

/-!
# The randomly remapped tag store

Model of `NewRandTag` and `NewRandIdx` (`mem/cache/tags`). All blocks form one
set. A block stores index bits next to its tag, and a lookup compares both. The
victim is the block that has the index bits of the new line, if there is one,
and otherwise a block drawn at random, so that the stored index bits remap the
array as it is filled.
-/
namespace RasCache.Mem

open Function

/-- The parameters of the tag store and of its indexing policy. There is one
set, so `tagShift` is `setShift`, the logarithm of the block size. The mask is an
`unsigned` made by the shift of an `int`; by too many places the shift is undefined,
and any mask can come out. -/
structure RandParams where
  numBlocks : Nat
  setShift : Nat
  nbits : Nat
  indexMask : BitVec 32
  occupied : 0 < numBlocks
  shifted : numBlocks.log2 + nbits < 32 →
    indexMask = 1#32 <<< (numBlocks.log2 + nbits) - 1#32

namespace RandParams

variable (cfg : RandParams)

def blkSize : Nat := 2 ^ cfg.setShift

/-- The shift of the mask is defined. -/
def Narrow : Prop := cfg.numBlocks.log2 + cfg.nbits < 32

def extractTag (addr : Addr) : Addr := addr >>> (cfg.setShift + cfg.nbits)

/-- The `nbits` lowest bits of the line number are index bits only; the other
index bits are part of the tag as well. -/
def extractIndex (addr : Addr) : Addr := (addr >>> cfg.setShift) &&& cfg.indexMask.toNat

def regenerateAddr (tag indexBits : Addr) : Addr :=
  tag <<< (cfg.setShift + cfg.nbits) ||| indexBits <<< cfg.setShift

variable {cfg}

theorem Narrow.testBit_indexMask (narrow : cfg.Narrow) (bit : Nat) :
    cfg.indexMask.toNat.testBit bit = decide (bit < cfg.numBlocks.log2 + cfg.nbits) := by
  rw [BitVec.testBit_toNat, cfg.shifted narrow, WordFields.getLsbD_lowMask bit narrow]

/-- The bits below the block offset are lost, and no others. -/
theorem Narrow.regenerateAddr_extract (narrow : cfg.Narrow) {addr : Addr}
    (aligned : cfg.blkSize ∣ addr) :
    cfg.regenerateAddr (cfg.extractTag addr) (cfg.extractIndex addr) = addr := by
  unfold regenerateAddr extractTag extractIndex
  refine Nat.eq_of_testBit_eq fun bit => ?_
  simp only [Nat.testBit_or, Nat.testBit_shiftLeft, Nat.testBit_shiftRight, Nat.testBit_and,
    narrow.testBit_indexMask]
  obtain ⟨line, rfl⟩ := aligned
  rw [blkSize]
  rcases Nat.lt_or_ge bit cfg.setShift with offset | inLine
  · -- An offset bit: zero in the address, and neither shift reaches it.
    have outside : ¬ cfg.setShift + cfg.nbits ≤ bit := by omega
    simp [Nat.testBit_two_pow_mul, Nat.not_le.mpr offset, outside]
  · have back : cfg.setShift + (bit - cfg.setShift) = bit := by omega
    rcases Nat.lt_or_ge bit (cfg.setShift + cfg.nbits) with low | high
    · -- One of the bits that the tag lacks: the mask keeps it.
      have masked : bit - cfg.setShift < cfg.numBlocks.log2 + cfg.nbits := by omega
      have outside : ¬ cfg.setShift + cfg.nbits ≤ bit := by omega
      simp [inLine, back, masked, outside]
    · have again : cfg.setShift + cfg.nbits + (bit - (cfg.setShift + cfg.nbits)) = bit := by omega
      simp only [high, inLine, again, back, decide_true, Bool.true_and]
      cases (2 ^ cfg.setShift * line).testBit bit <;> simp

end RandParams

/-- `MaxAddr`, the tag of an invalid block. -/
def maxAddr : Addr := 2 ^ 64 - 1

/-- A block of the tag store: the fields of `TaggedEntry` and the domain. -/
structure RandBlk where
  valid : Bool
  secure : Bool
  tag : Addr
  indexBits : Addr
  domainID : DomainID
deriving Repr, DecidableEq

namespace RandBlk

def matchIndex (blk : RandBlk) (indexBits : Addr) (isSecure : Bool) : Bool :=
  blk.valid && decide (blk.indexBits = indexBits) && decide (blk.secure = isSecure)

/-- The comparison of `NewRandTag::findBlock`. -/
def holds (blk : RandBlk) (tag indexBits : Addr) (isSecure : Bool) : Bool :=
  blk.valid && decide (blk.secure = isSecure) && decide (blk.tag = tag) &&
    decide (blk.indexBits = indexBits)

/-- The index bits survive an invalidation. -/
def invalidate (blk : RandBlk) : RandBlk :=
  { blk with valid := false, secure := false, tag := maxAddr, domainID := 0 }

/-- `TaggedEntry::insert` sets the secure bit and never clears it. -/
def insert (blk : RandBlk) (tag indexBits : Addr) (isSecure : Bool) (domainID : DomainID) :
    RandBlk :=
  { valid := true, secure := isSecure || blk.secure, tag, indexBits, domainID }

theorem matchIndex_iff (blk : RandBlk) (indexBits : Addr) (isSecure : Bool) :
    blk.matchIndex indexBits isSecure = true ↔
      blk.valid = true ∧ blk.indexBits = indexBits ∧ blk.secure = isSecure := by
  simp [matchIndex, and_assoc]

theorem holds_iff (blk : RandBlk) (tag indexBits : Addr) (isSecure : Bool) :
    blk.holds tag indexBits isSecure = true ↔
      blk.matchIndex indexBits isSecure = true ∧ blk.tag = tag := by
  rw [matchIndex_iff]
  simp only [holds, Bool.and_eq_true, decide_eq_true_eq]
  constructor
  · rintro ⟨⟨⟨valid, secure⟩, tag⟩, index⟩
    exact ⟨⟨valid, index, secure⟩, tag⟩
  · rintro ⟨⟨valid, index, secure⟩, tag⟩
    exact ⟨⟨⟨valid, secure⟩, tag⟩, index⟩

end RandBlk

/-- The block of a line. -/
def RandParams.newBlk (cfg : RandParams) (addr : Addr) (isSecure : Bool) (domainID : DomainID) :
    RandBlk :=
  ⟨true, isSecure, cfg.extractTag addr, cfg.extractIndex addr, domainID⟩

/-- The blocks, in the order of the ways. An invalid block is not secure, which
is what `insert` relies on. -/
structure NewRandTag (cfg : RandParams) where
  blk : Fin cfg.numBlocks → RandBlk
  unmarked : ∀ way, (blk way).valid = false → (blk way).secure = false

namespace NewRandTag

variable {cfg : RandParams}

/-- The blocks are invalid. Their index bits start at zero in the source, and could be any. -/
def init (indexBits : Fin cfg.numBlocks → Addr) : NewRandTag cfg where
  blk := fun way => ⟨false, false, maxAddr, indexBits way, 0⟩
  unmarked := fun _ _ => rfl

/-- `findBlock` with a domain, which it does not look at. -/
def findBlock (tags : NewRandTag cfg) (addr : Addr) (isSecure : Bool) (_domainID : DomainID) :
    Option (Fin cfg.numBlocks) :=
  (List.finRange cfg.numBlocks).find? fun way =>
    (tags.blk way).holds (cfg.extractTag addr) (cfg.extractIndex addr) isSecure

/-- The loop of `findVictim`: the last block that matches, and their number. -/
def countMatches (tags : NewRandTag cfg) (indexBits : Addr) (isSecure : Bool) :
    Option (Fin cfg.numBlocks) × Nat :=
  (List.finRange cfg.numBlocks).foldl
    (fun found way =>
      if (tags.blk way).matchIndex indexBits isSecure then (some way, found.2 + 1) else found)
    (none, 0)

/-- `random & (allocAssoc - 1)`. -/
def drawnWay (random : Nat) : Fin cfg.numBlocks :=
  ⟨random &&& (cfg.numBlocks - 1),
    Nat.lt_of_le_of_lt Nat.and_le_right (Nat.sub_lt cfg.occupied Nat.one_pos)⟩

/-- `findVictim` without a domain; `none` where one of its assertions fails. -/
def findVictim (tags : NewRandTag cfg) (addr : Addr) (isSecure : Bool) (random : Nat) :
    Option (Fin cfg.numBlocks) :=
  match tags.countMatches (cfg.extractIndex addr) isSecure with
  | (some victim, 1) =>
    -- the line itself would have been a hit
    if (tags.blk victim).tag = cfg.extractTag addr then none else some victim
  -- no block has the index bits: the one that is drawn gets them
  | (_, matchCnt) => if matchCnt = 0 then some (drawnWay random) else none

def invalidate (tags : NewRandTag cfg) (way : Fin cfg.numBlocks) : NewRandTag cfg where
  blk := update tags.blk way (tags.blk way).invalidate
  unmarked := by
    intro other invalid
    by_cases same : other = way
    · subst same
      simp [RandBlk.invalidate]
    · rw [update_of_ne same] at invalid ⊢
      exact tags.unmarked other invalid

/-- `insertBlock`, which asserts that the block is invalid. -/
def insertBlock (tags : NewRandTag cfg) (addr : Addr) (isSecure : Bool) (domainID : DomainID)
    (way : Fin cfg.numBlocks) : Option (NewRandTag cfg) :=
  if (tags.blk way).valid then none
  else some
    { blk := update tags.blk way ((tags.blk way).insert (cfg.extractTag addr)
        (cfg.extractIndex addr) isSecure domainID)
      unmarked := by
        intro other invalid
        by_cases same : other = way
        · subst same
          simp [RandBlk.insert] at invalid
        · rw [update_of_ne same] at invalid ⊢
          exact tags.unmarked other invalid }

/-- The victim is evicted, if it is valid, and the new line takes its place. -/
def replaceBlock (tags : NewRandTag cfg) (addr : Addr) (isSecure : Bool) (domainID : DomainID)
    (victim : Fin cfg.numBlocks) : Option (NewRandTag cfg) :=
  let evicted := if (tags.blk victim).valid then tags.invalidate victim else tags
  evicted.insertBlock addr isSecure domainID victim

/-! ### Lookups -/

/-- At most one valid block has given index bits and a given secure bit. -/
def Unique (tags : NewRandTag cfg) : Prop :=
  ∀ (indexBits : Addr) (isSecure : Bool) (first second : Fin cfg.numBlocks),
    (tags.blk first).matchIndex indexBits isSecure = true →
      (tags.blk second).matchIndex indexBits isSecure = true → first = second

theorem init_unique (indexBits : Fin cfg.numBlocks → Addr) :
    (init indexBits : NewRandTag cfg).Unique := by
  intro _ _ _ _ found _
  simp [init, RandBlk.matchIndex] at found

variable {tags : NewRandTag cfg} {isSecure : Bool}
  {way : Fin cfg.numBlocks} {after : NewRandTag cfg}

theorem findBlock_holds {addr : Addr} {domainID : DomainID}
    (found : tags.findBlock addr isSecure domainID = some way) :
    (tags.blk way).holds (cfg.extractTag addr) (cfg.extractIndex addr) isSecure = true := by
  simpa using List.find?_some found

theorem findBlock_none_iff (tags : NewRandTag cfg) (addr : Addr) (isSecure : Bool)
    (domainID : DomainID) : tags.findBlock addr isSecure domainID = none ↔ ∀ way,
      (tags.blk way).holds (cfg.extractTag addr) (cfg.extractIndex addr) isSecure = false := by
  simp [findBlock]

/-- Where the index bits are unique, a lookup finds the block that holds the line,
wherever it stands. -/
theorem Unique.findBlock_eq (unique : tags.Unique) (addr : Addr) (isSecure : Bool)
    (domainID : DomainID) (way : Fin cfg.numBlocks)
    (held : (tags.blk way).holds (cfg.extractTag addr) (cfg.extractIndex addr) isSecure =
      true) : tags.findBlock addr isSecure domainID = some way := by
  cases found : tags.findBlock addr isSecure domainID with
  | none =>
    have absent := (findBlock_none_iff tags addr isSecure domainID).mp found way
    rw [held] at absent
    cases absent
  | some other =>
    have there := findBlock_holds found
    have same : other = way := unique _ _ other way ((RandBlk.holds_iff ..).mp there).1
      ((RandBlk.holds_iff ..).mp held).1
    rw [same]

/-! ### The victim -/

/-- The loop keeps the last match and counts. -/
theorem foldl_matches {α : Type} (matched : α → Bool) (ways : List α) (last : Option α)
    (count : Nat) :
    ways.foldl (fun found way => if matched way then (some way, found.2 + 1) else found)
        (last, count) =
      ((ways.filter matched).getLast?.or last, count + (ways.filter matched).length) := by
  induction ways generalizing last count with
  | nil => simp
  | cons way ways ih =>
    simp only [List.foldl_cons]
    cases here : matched way with
    | true =>
      simp only [if_true]
      rw [ih, List.filter_cons_of_pos here, List.length_cons]
      refine Prod.ext ?_ (by dsimp only; omega)
      cases rest : ways.filter matched with
      | nil => simp
      | cons =>
        rw [List.getLast?_cons_cons, List.getLast?_eq_some_getLast (List.cons_ne_nil _ _)]
        rfl
    | false =>
      simp only [Bool.false_eq_true, if_false]
      rw [ih, List.filter_cons_of_neg (by simp [here])]

theorem countMatches_eq (tags : NewRandTag cfg) (indexBits : Addr) (isSecure : Bool) :
    let found := (List.finRange cfg.numBlocks).filter fun way =>
      (tags.blk way).matchIndex indexBits isSecure
    tags.countMatches indexBits isSecure = (found.getLast?, found.length) := by
  dsimp only
  unfold countMatches
  rw [foldl_matches]
  simp

variable {indexBits : Addr}

theorem countMatches_none (absent : ∀ way, (tags.blk way).matchIndex indexBits isSecure = false) :
    tags.countMatches indexBits isSecure = (none, 0) := by
  rw [countMatches_eq]
  have nothing : (List.finRange cfg.numBlocks).filter
      (fun way => (tags.blk way).matchIndex indexBits isSecure) = [] := by
    simp [absent]
  rw [nothing]
  rfl

theorem Unique.countMatches_one (unique : tags.Unique) {indexBits : Addr} {isSecure : Bool}
    {way : Fin cfg.numBlocks} (there : (tags.blk way).matchIndex indexBits isSecure = true) :
    tags.countMatches indexBits isSecure = (some way, 1) := by
  rw [countMatches_eq]
  have exactly : ∀ other ∈ List.finRange cfg.numBlocks,
      (tags.blk other).matchIndex indexBits isSecure = decide (other = way) := by
    intro other _
    by_cases same : other = way
    · rw [same, there, decide_eq_true rfl]
    · rw [decide_eq_false same]
      cases found : (tags.blk other).matchIndex indexBits isSecure with
      | false => rfl
      | true => exact absurd (unique _ _ other way found there) same
  have only : (List.finRange cfg.numBlocks).filter
      (fun other => (tags.blk other).matchIndex indexBits isSecure) = [way] := by
    rw [List.filter_congr exactly, List.filter_eq, List.count_eq_one_of_mem
      (List.nodup_finRange _) (List.mem_finRange way)]
    rfl
  rw [only]
  rfl

/-- The victim is the block with the index bits of the new line, or there is no
such block and any block may be the victim. -/
theorem Unique.findVictim_spec (unique : tags.Unique) {addr : Addr} {isSecure : Bool}
    {domainID : DomainID} (random : Nat) (missed : tags.findBlock addr isSecure domainID = none) :
    ∃ victim, tags.findVictim addr isSecure random = some victim ∧
      ∀ way, (tags.blk way).matchIndex (cfg.extractIndex addr) isSecure = true → way = victim := by
  by_cases conflict : ∃ way,
      (tags.blk way).matchIndex (cfg.extractIndex addr) isSecure = true
  · obtain ⟨way, there⟩ := conflict
    -- A block with this tag as well would have been found.
    have otherTag : (tags.blk way).tag ≠ cfg.extractTag addr := by
      intro sameTag
      have held := (RandBlk.holds_iff _ _ _ _).mpr ⟨there, sameTag⟩
      rw [(findBlock_none_iff tags addr isSecure domainID).mp missed way] at held
      cases held
    refine ⟨way, ?_, fun other found => unique _ _ other way found there⟩
    unfold findVictim
    rw [unique.countMatches_one there]
    exact if_neg otherTag
  · have absent : ∀ way,
        (tags.blk way).matchIndex (cfg.extractIndex addr) isSecure = false := by
      intro way
      exact Bool.eq_false_iff.mpr fun found => conflict ⟨way, found⟩
    refine ⟨drawnWay random, ?_, fun way found => absurd ⟨way, found⟩ conflict⟩
    unfold findVictim
    rw [countMatches_none absent]
    rfl

/-! ### Changes of the array -/

theorem invalidate_matchIndex {other : Fin cfg.numBlocks}
    (found : ((tags.invalidate way).blk other).matchIndex indexBits isSecure = true) :
    other ≠ way ∧ (tags.blk other).matchIndex indexBits isSecure = true := by
  by_cases same : other = way
  · subst same
    simp [invalidate, RandBlk.invalidate, RandBlk.matchIndex] at found
  · have kept : (tags.invalidate way).blk other = tags.blk other := update_of_ne same _ _
    rw [kept] at found
    exact ⟨same, found⟩

theorem Unique.invalidate (unique : tags.Unique) (way : Fin cfg.numBlocks) :
    (tags.invalidate way).Unique := by
  intro index secure first second found found'
  exact unique index secure first second (invalidate_matchIndex found).2
    (invalidate_matchIndex found').2

/-- A replacement never fails an assertion: the victim holds the new line, and
every other block is as it was. -/
theorem replaceBlock_spec (tags : NewRandTag cfg) (addr : Addr) (isSecure : Bool)
    (domainID : DomainID) (victim : Fin cfg.numBlocks) :
    ∃ after, tags.replaceBlock addr isSecure domainID victim = some after ∧
      after.blk victim = cfg.newBlk addr isSecure domainID ∧
      ∀ other, other ≠ victim → after.blk other = tags.blk other := by
  unfold replaceBlock RandParams.newBlk
  dsimp only
  cases valid : (tags.blk victim).valid with
  | true =>
    have invalid : ((tags.invalidate victim).blk victim) = (tags.blk victim).invalidate :=
      update_self ..
    simp only [if_true, insertBlock, invalid]
    refine ⟨_, rfl, ?_, fun other different => ?_⟩
    · simp [RandBlk.insert, RandBlk.invalidate]
    · simp [NewRandTag.invalidate, update_of_ne different]
  | false =>
    simp only [Bool.false_eq_true, if_false, insertBlock, valid]
    refine ⟨_, rfl, ?_, fun other different => ?_⟩
    · simp [RandBlk.insert, tags.unmarked victim valid]
    · simp [update_of_ne different]

/-- What an allocation makes of the lookups: the new line is found where it was
put, and every line found elsewhere before is still found there. -/
structure Remapped (tags after : NewRandTag cfg) (addr : Addr) (isSecure : Bool)
    (victim : Fin cfg.numBlocks) : Prop where
  inserted : ∀ domainID, after.findBlock addr isSecure domainID = some victim
  kept : ∀ other otherSecure domainID way, tags.findBlock other otherSecure domainID = some way →
    way ≠ victim → after.findBlock other otherSecure domainID = some way

theorem Unique.replace (unique : tags.Unique) (addr : Addr) (isSecure : Bool) (domainID : DomainID)
    (victim : Fin cfg.numBlocks)
    (only : ∀ way, (tags.blk way).matchIndex (cfg.extractIndex addr) isSecure = true → way = victim)
    (new : after.blk victim = cfg.newBlk addr isSecure domainID)
    (others : ∀ other, other ≠ victim → after.blk other = tags.blk other) : after.Unique := by
  intro index secure first second found found'
  -- A block with the index bits of the new line can only be the victim.
  have conflict : ∀ other, (after.blk victim).matchIndex index secure = true →
      (after.blk other).matchIndex index secure = true → other = victim := by
    intro other here there
    by_contra different
    rw [new, RandBlk.matchIndex_iff] at here
    obtain ⟨_, rfl, rfl⟩ := here
    rw [others other different] at there
    exact different (only other there)
  by_cases first_victim : first = victim
  · subst first_victim
    exact (conflict second found found').symm
  · by_cases second_victim : second = victim
    · subst second_victim
      exact conflict first found' found
    · rw [others first first_victim] at found
      rw [others second second_victim] at found'
      exact unique index secure first second found found'

theorem Unique.remapped (unique : after.Unique) (addr : Addr) (isSecure : Bool)
    (domainID : DomainID) (victim : Fin cfg.numBlocks)
    (new : after.blk victim = cfg.newBlk addr isSecure domainID)
    (others : ∀ other, other ≠ victim → after.blk other = tags.blk other) :
    tags.Remapped after addr isSecure victim := by
  constructor
  · intro domain
    refine unique.findBlock_eq addr isSecure domain victim ?_
    simp [new, RandParams.newBlk, RandBlk.holds]
  · intro other secure domain way found different
    refine unique.findBlock_eq other secure domain way ?_
    rw [others way different]
    exact findBlock_holds found

/-! ### Runs -/

/-- What happens to the array: a line that was not found is allocated, with the
random number the choice of the victim draws, or a block is invalidated. -/
inductive Event (cfg : RandParams) where
  | allocate (addr : Addr) (isSecure : Bool) (domainID : DomainID) (random : Nat)
  | invalidate (way : Fin cfg.numBlocks)

def step (tags : NewRandTag cfg) : Event cfg → Option (NewRandTag cfg)
  | .allocate addr isSecure domainID random =>
    match tags.findBlock addr isSecure domainID with
    | some _ => none
    | none => (tags.findVictim addr isSecure random).bind
        (tags.replaceBlock addr isSecure domainID)
  | .invalidate way => some (tags.invalidate way)

/-- An allocation after a lookup that missed passes the assertions and remaps the
array as it should. -/
def Allocates (tags : NewRandTag cfg) : Event cfg → Prop
  | .allocate addr isSecure domainID random =>
    tags.findBlock addr isSecure domainID = none →
      ∃ victim after, tags.findVictim addr isSecure random = some victim ∧
        tags.step (.allocate addr isSecure domainID random) = some after ∧
        tags.Remapped after addr isSecure victim
  | .invalidate _ => True

theorem Unique.allocate (unique : tags.Unique) (addr : Addr) (isSecure : Bool)
    (domainID : DomainID) (random : Nat) (missed : tags.findBlock addr isSecure domainID = none) :
    ∃ victim after, tags.findVictim addr isSecure random = some victim ∧
      tags.replaceBlock addr isSecure domainID victim = some after ∧
      after.blk victim = cfg.newBlk addr isSecure domainID ∧
      (∀ other, other ≠ victim → after.blk other = tags.blk other) ∧
      after.Unique ∧ tags.Remapped after addr isSecure victim := by
  obtain ⟨victim, chosen, only⟩ := unique.findVictim_spec random missed
  obtain ⟨after, replaced, new, others⟩ := tags.replaceBlock_spec addr isSecure domainID victim
  have still := unique.replace addr isSecure domainID victim only new others
  exact ⟨victim, after, chosen, replaced, new, others, still,
    still.remapped addr isSecure domainID victim new others⟩

theorem Unique.step (unique : tags.Unique) (e : Event cfg) :
    tags.Allocates e ∧ ∀ after, tags.step e = some after → after.Unique := by
  cases e with
  | allocate addr isSecure domainID random =>
    cases missed : tags.findBlock addr isSecure domainID with
    | some =>
      refine ⟨fun missing => ?_, fun after taken => ?_⟩
      · rw [missed] at missing
        cases missing
      · simp [NewRandTag.step, missed] at taken
    | none =>
      -- a line that is missing gets a victim, whose index is then that of the line alone
      obtain ⟨victim, after, chosen, replaced, _, _, still, remapped⟩ :=
        unique.allocate addr isSecure domainID random missed
      have taken : tags.step (.allocate addr isSecure domainID random) = some after := by
        simp only [NewRandTag.step, missed, chosen, Option.bind_some, replaced]
      refine ⟨fun _ => ⟨victim, after, chosen, taken, remapped⟩, fun other reached => ?_⟩
      rw [taken] at reached
      cases reached
      exact still
  | invalidate way =>
    refine ⟨trivial, fun after taken => ?_⟩
    cases taken
    exact unique.invalidate way

/-- Over every run from the empty array, whatever the random numbers: no two valid
blocks share index bits and secure bit, the assertions of `findVictim` hold, and
an allocation is found where it was put without moving any other line. -/
theorem index_unique (indexBits : Fin cfg.numBlocks → Addr) (events : List (Event cfg)) :
    Runs.Along NewRandTag.step (fun tags e => tags.Unique ∧ tags.Allocates e ∧
        ∀ after, tags.step e = some after → after.Unique) (init indexBits) events := by
  have keeps : ∀ (tags : NewRandTag cfg) (e : Event cfg) (after : NewRandTag cfg),
      tags.Unique → True → tags.step e = some after → after.Unique := by
    intro _ e after unique _ taken
    exact (unique.step e).2 after taken
  have implies : ∀ (tags : NewRandTag cfg) (e : Event cfg), tags.Unique → True →
      tags.Unique ∧ tags.Allocates e ∧ ∀ after, tags.step e = some after → after.Unique := by
    intro _ e unique _
    exact ⟨unique, unique.step e⟩
  exact Runs.along_of_invariant keeps implies _ events (init_unique indexBits)
    (Runs.along_trivial _ events)

end NewRandTag

end RasCache.Mem
