import RasCache.Foundation.WordFields
import RasCache.Mem.NewRandTag

/-!
# Addresses in the randomly remapped tag store

Model of the address fields of `NewRandIdx` (`indexing_policies/new_rand_idx.cc`)
on machine words. The index mask comes from a shift of an `int`, and the shifts of
the tag by `nbits` places more than the block offset are shifts of a 64-bit word.
A shift by a negative amount, or by the width of the word or more, is undefined
behaviour, which is `none` here. `newRandIdx_faithful_iff` says which parameters
keep the fields apart, and `narrow_refines` that the numbers of `RandParams` are
then the ones of the source.
-/
namespace RasCache.Mem

open WordFields

/-- Sizes are powers of two. There is one set, so `tagShift` is `setShift`. -/
structure NewRandIdx where
  lSize : Nat
  setShift : Nat
  nbits : Int
  block_le : setShift ≤ lSize
  size_fits : lSize < 64
  entry_fits : setShift < 31

namespace NewRandIdx

variable (idx : NewRandIdx)

def size : Nat := 2 ^ idx.lSize

def entrySize : Nat := 2 ^ idx.setShift

/-- The number of index bits the mask is to have. -/
def maskWidth : Int := (idx.size / idx.entrySize).log2 + idx.nbits

/-- `(1 << maskWidth) - 1` on an `int`, kept as an `unsigned`. -/
def indexMask : Option (BitVec 32) :=
  if 0 ≤ idx.maskWidth ∧ idx.maskWidth < 32 then some (1#32 <<< idx.maskWidth.toNat - 1#32)
  else none

/-- `tagShift + nbits`, when a 64-bit word can be shifted by it. -/
def tagAmount : Option Nat :=
  if 0 ≤ idx.setShift + idx.nbits ∧ idx.setShift + idx.nbits < 64 then
    some (idx.setShift + idx.nbits).toNat
  else none

def extractTag (addr : BitVec 64) : Option (BitVec 64) :=
  idx.tagAmount.map fun amount => addr >>> amount

/-- The index bits that a mask keeps. -/
def maskedIndex (mask : BitVec 32) (addr : BitVec 64) : BitVec 64 :=
  (addr >>> idx.setShift) &&& mask.setWidth 64

def extractIndex (addr : BitVec 64) : Option (BitVec 64) :=
  idx.indexMask.map fun mask => idx.maskedIndex mask addr

def regenerateAddr (tag indexBits : BitVec 64) : Option (BitVec 64) :=
  idx.tagAmount.map fun amount => tag <<< amount ||| indexBits <<< idx.setShift

/-- The address of the block, without the offset. -/
def blockAddr (addr : BitVec 64) : BitVec 64 := alignDown idx.setShift addr

/-- The fields of an address give back the address of its block. -/
def RoundTrips : Prop :=
  ∀ addr : BitVec 64,
    ((idx.extractTag addr).bind fun tag =>
      (idx.extractIndex addr).bind fun indexBits => idx.regenerateAddr tag indexBits) =
      some (idx.blockAddr addr)

/-- Two addresses have the same fields. -/
def SameFields (first second : BitVec 64) : Prop :=
  ∃ tag indexBits, idx.extractTag first = some tag ∧ idx.extractTag second = some tag ∧
    idx.extractIndex first = some indexBits ∧ idx.extractIndex second = some indexBits

/-- The fields tell blocks apart, and nothing within a block. -/
def TellsBlocks : Prop :=
  ∀ first second : BitVec 64,
    idx.SameFields first second ↔ idx.blockAddr first = idx.blockAddr second

/-- The mask fits into an `int`, and the index has no fewer bits than the
blocks need. -/
def Narrow : Prop := 0 ≤ idx.nbits ∧ idx.maskWidth < 32

theorem log2_blocks : (idx.size / idx.entrySize).log2 = idx.lSize - idx.setShift := by
  rw [size, entrySize, Nat.pow_div idx.block_le (by decide), Nat.log2_two_pow]

/-! ### Bits of the fields -/

theorem getLsbD_fields (mask : BitVec 32) (addr : BitVec 64) (amount i : Nat) (inside : i < 64) :
    ((addr >>> amount) <<< amount ||| idx.maskedIndex mask addr <<< idx.setShift).getLsbD i =
      (addr.getLsbD i && (decide (amount ≤ i) ||
        (decide (idx.setShift ≤ i) && mask.getLsbD (i - idx.setShift)))) := by
  have tag : ((addr >>> amount) <<< amount).getLsbD i =
      (addr.getLsbD i && decide (amount ≤ i)) := by
    rw [← alignDown_eq_shift, getLsbD_alignDown]
  have index : (idx.maskedIndex mask addr <<< idx.setShift).getLsbD i =
      (addr.getLsbD i && (decide (idx.setShift ≤ i) && mask.getLsbD (i - idx.setShift))) := by
    rw [BitVec.getLsbD_shiftLeft, maskedIndex, BitVec.getLsbD_and, BitVec.getLsbD_ushiftRight,
      BitVec.getLsbD_setWidth]
    by_cases low : i < idx.setShift
    · simp [low, Nat.not_le_of_lt low]
    · have split : idx.setShift + (i - idx.setShift) = i := by omega
      have bound : i - idx.setShift < 64 := by omega
      simp [inside, low, Nat.le_of_not_lt low, split, bound]
  rw [BitVec.getLsbD_or, tag, index, Bool.and_or_distrib_left]

theorem getLsbD_mask (mask : BitVec 32) (masked : idx.indexMask = some mask) (i : Nat) :
    mask.getLsbD i = decide ((i : Int) < idx.maskWidth) := by
  unfold indexMask at masked
  split at masked <;> cases masked
  next fits =>
    obtain ⟨_, _⟩ := fits
    rw [getLsbD_lowMask i (by omega)]
    apply decide_eq_decide.mpr
    omega

/-! ### Narrow parameters -/

theorem tagAmount_eq {amount : Nat} (shifted : idx.tagAmount = some amount) :
    (amount : Int) = idx.setShift + idx.nbits := by
  unfold tagAmount at shifted
  split at shifted <;> cases shifted
  omega

variable {idx}

theorem Narrow.defined (narrow : idx.Narrow) :
    ∃ mask amount, idx.indexMask = some mask ∧ idx.tagAmount = some amount ∧
      (amount : Int) = idx.setShift + idx.nbits := by
  obtain ⟨_, width⟩ := narrow
  have block := idx.entry_fits
  have enough : 0 ≤ idx.maskWidth ∧ idx.nbits ≤ idx.maskWidth := by
    unfold maskWidth
    omega
  refine ⟨1#32 <<< idx.maskWidth.toNat - 1#32, (idx.setShift + idx.nbits).toNat,
    if_pos ⟨enough.1, width⟩, if_pos ⟨by omega, by omega⟩, by omega⟩

/-- The tag and the index overlap, and together they have every bit of the block
address. -/
theorem Narrow.fields_eq (narrow : idx.Narrow) {mask : BitVec 32} {amount : Nat}
    (masked : idx.indexMask = some mask) (shifted : idx.tagAmount = some amount)
    (addr : BitVec 64) :
    (addr >>> amount) <<< amount ||| idx.maskedIndex mask addr <<< idx.setShift =
      idx.blockAddr addr := by
  have shift := idx.tagAmount_eq shifted
  have width : idx.nbits ≤ idx.maskWidth := by
    unfold maskWidth
    omega
  apply BitVec.eq_of_getLsbD_eq
  intro i inside
  rw [idx.getLsbD_fields mask addr amount i inside, blockAddr, getLsbD_alignDown,
    idx.getLsbD_mask mask masked]
  congr 1
  by_cases offset : i < idx.setShift
  · -- a bit of the offset is in neither field
    have notTag : ¬ amount ≤ i := by
      have := narrow.1
      omega
    simp [Nat.not_le_of_lt offset, notTag]
  · -- a bit the tag lacks is one of the `nbits` lowest index bits
    have above : idx.setShift ≤ i := Nat.le_of_not_lt offset
    by_cases inTag : amount ≤ i
    · simp [inTag, above]
    · have inIndex : ((i - idx.setShift : Nat) : Int) < idx.maskWidth := by omega
      simp only [above, inIndex, decide_true, Bool.and_true, Bool.or_true]

theorem Narrow.roundTrips (narrow : idx.Narrow) : idx.RoundTrips := by
  obtain ⟨_, _, masked, shifted, _⟩ := narrow.defined
  intro addr
  simp only [extractTag, extractIndex, regenerateAddr, masked, shifted, Option.map_some,
    Option.bind_some]
  rw [narrow.fields_eq masked shifted addr]

theorem Narrow.tellsBlocks (narrow : idx.Narrow) : idx.TellsBlocks := by
  obtain ⟨mask, amount, masked, shifted, _⟩ := narrow.defined
  intro first second
  simp only [SameFields, extractTag, extractIndex, masked, shifted, Option.map_some,
    Option.some.injEq]
  constructor
  · rintro ⟨tag, indexBits, firstTag, secondTag, firstIndex, secondIndex⟩
    rw [← narrow.fields_eq masked shifted first, ← narrow.fields_eq masked shifted second,
      firstTag, secondTag, firstIndex, secondIndex]
  · intro same
    -- both fields can be read off the block address
    have lost : idx.setShift ≤ amount := by
      have := narrow.1
      omega
    have tag : ∀ addr : BitVec 64, addr >>> amount = idx.blockAddr addr >>> amount :=
      fun addr => (alignDown_shiftRight addr lost).symm
    have index : ∀ addr : BitVec 64,
        idx.maskedIndex mask addr = idx.maskedIndex mask (idx.blockAddr addr) := by
      intro _
      rw [maskedIndex, maskedIndex, blockAddr, alignDown_shiftRight _ (Nat.le_refl _)]
    refine ⟨_, _, rfl, ?_, rfl, ?_⟩
    · rw [tag second, tag first, same]
    · rw [index second, index first, same]

/-- Without index bits of its own the tag has to take over bits of the offset. -/
theorem RoundTrips.narrow (roundTrips : idx.RoundTrips) : idx.Narrow := by
  -- everything is defined, since something comes back for the address zero
  obtain ⟨tag, tagged, rest⟩ := Option.bind_eq_some_iff.mp (roundTrips 0)
  obtain ⟨amount, shifted, _⟩ := Option.map_eq_some_iff.mp tagged
  obtain ⟨_, indexed, _⟩ := Option.bind_eq_some_iff.mp rest
  obtain ⟨mask, masked, _⟩ := Option.map_eq_some_iff.mp indexed
  have shift := idx.tagAmount_eq shifted
  have width : idx.maskWidth < 32 := by
    unfold indexMask at masked
    split at masked
    next fits => exact fits.2
    next => cases masked
  refine ⟨?_, width⟩
  by_contra negative
  have below : amount < idx.setShift := by omega
  have inside : amount < 64 := by
    have := idx.entry_fits
    omega
  -- the lowest bit of the tag is a bit of the offset, and comes back
  have back := roundTrips (1#64 <<< amount)
  simp only [extractTag, extractIndex, regenerateAddr, masked, shifted, Option.map_some,
    Option.bind_some, Option.some.injEq] at back
  have bit := congrArg (fun word => word.getLsbD amount) back
  simp only [idx.getLsbD_fields mask _ amount amount inside, blockAddr, getLsbD_alignDown,
    Nat.le_refl, Nat.not_le_of_lt below, decide_true, decide_false, Bool.true_or, Bool.and_true,
    Bool.and_false] at bit
  simp [inside] at bit

end NewRandIdx

open NewRandIdx in
/-- The fields of an address are faithful exactly when there is no negative number
of extra bits and the mask fits into an `int`. -/
theorem newRandIdx_faithful_iff (idx : NewRandIdx) : (idx.RoundTrips ∧ idx.TellsBlocks) ↔
      0 ≤ idx.nbits ∧ (idx.lSize - idx.setShift : Int) + idx.nbits < 32 := by
  have width : idx.maskWidth = (idx.lSize - idx.setShift : Int) + idx.nbits := by
    have := idx.block_le
    rw [maskWidth, idx.log2_blocks]
    omega
  rw [← width]
  exact ⟨fun right => right.1.narrow,
    fun narrow => ⟨Narrow.roundTrips narrow, Narrow.tellsBlocks narrow⟩⟩

namespace NewRandIdx

/-- A cache of 1 MiB with blocks of 64 bytes. -/
def mebibyte (nbits : Int) : NewRandIdx where
  lSize := 20
  setShift := 6
  nbits := nbits
  block_le := by decide
  size_fits := by decide
  entry_fits := by decide

end NewRandIdx

/-- With 18 extra bits the mask is out of range. With 33, no mask of 32 bits tells
the blocks at 0 and at 2³⁸ apart, whatever the shift gives. With a negative number
the address that comes back keeps bits of the offset. -/
theorem newRandIdx_unfaithful :
    (NewRandIdx.mebibyte 18).indexMask = none ∧ ¬ (NewRandIdx.mebibyte 18).RoundTrips ∧
      (∀ mask : BitVec 32, (NewRandIdx.mebibyte 33).extractTag 0 =
          (NewRandIdx.mebibyte 33).extractTag (1#64 <<< 38) ∧
        (NewRandIdx.mebibyte 33).maskedIndex mask 0 =
          (NewRandIdx.mebibyte 33).maskedIndex mask (1#64 <<< 38) ∧
        (NewRandIdx.mebibyte 33).blockAddr 0 ≠ (NewRandIdx.mebibyte 33).blockAddr (1#64 <<< 38)) ∧
      ((NewRandIdx.mebibyte (-1)).extractTag 32#64).bind (fun tag =>
          ((NewRandIdx.mebibyte (-1)).extractIndex 32#64).bind fun indexBits =>
            (NewRandIdx.mebibyte (-1)).regenerateAddr tag indexBits) = some 32#64 ∧
      (NewRandIdx.mebibyte (-1)).blockAddr 32#64 = 0#64 := by
  have undefined : (NewRandIdx.mebibyte 18).indexMask = none := by decide +kernel
  refine ⟨undefined, ?_, ?_, by decide +kernel, by decide +kernel⟩
  · intro roundTrips
    obtain ⟨_, _, masked, _⟩ := roundTrips.narrow.defined
    rw [undefined] at masked
    cases masked
  · intro mask
    refine ⟨by decide +kernel, ?_, by decide +kernel⟩
    apply BitVec.eq_of_getLsbD_eq
    intro i _
    -- bit 38 of the address is bit 32 of the line number, which the mask has not
    rw [NewRandIdx.maskedIndex, NewRandIdx.maskedIndex, BitVec.getLsbD_and, BitVec.getLsbD_and,
      BitVec.getLsbD_setWidth]
    by_cases masked : i < 32
    · have clear : (1#64 <<< 38 >>> (NewRandIdx.mebibyte 33).setShift).getLsbD i = false := by
        have other : (NewRandIdx.mebibyte 33).setShift + i < 38 := by
          show 6 + i < 38
          omega
        rw [BitVec.getLsbD_ushiftRight, BitVec.getLsbD_shiftLeft]
        simp [other]
      rw [clear]
      simp
    · simp [BitVec.getLsbD_of_ge mask i (Nat.le_of_not_lt masked)]

/-! ### The fields as numbers -/

namespace NewRandIdx

variable {idx : NewRandIdx}

/-- The parameters of the tag store for this indexing policy. -/
def randParams (idx : NewRandIdx) : RandParams where
  numBlocks := idx.size / idx.entrySize
  setShift := idx.setShift
  nbits := idx.nbits.toNat
  indexMask := 1#32 <<< ((idx.size / idx.entrySize).log2 + idx.nbits.toNat) - 1#32
  shifted := fun _ => rfl
  occupied := Nat.div_pos (Nat.pow_le_pow_right (by decide) idx.block_le) (Nat.two_pow_pos _)

/-- For narrow parameters the code on machine words computes the tag and the index that
the model of the tag store computes on numbers. -/
theorem narrow_refines (narrow : idx.Narrow) (addr : BitVec 64) :
    (idx.extractTag addr).map BitVec.toNat = some (idx.randParams.extractTag addr.toNat) ∧
      (idx.extractIndex addr).map BitVec.toNat = some (idx.randParams.extractIndex addr.toNat) := by
  obtain ⟨mask, amount, masked, shifted, shift⟩ := narrow.defined
  obtain ⟨whole, small⟩ := narrow
  have wide : ((idx.randParams.numBlocks.log2 + idx.nbits.toNat : Nat) : Int) = idx.maskWidth := by
    show (((idx.size / idx.entrySize).log2 + idx.nbits.toNat : Nat) : Int) = idx.maskWidth
    rw [maskWidth]
    omega
  have fits : idx.randParams.Narrow := by
    show idx.randParams.numBlocks.log2 + idx.nbits.toNat < 32
    omega
  constructor
  · have same : amount = idx.setShift + idx.nbits.toNat := by omega
    simp only [extractTag, shifted, Option.map_some, BitVec.toNat_ushiftRight, same]
    rfl
  · simp only [extractIndex, masked, Option.map_some, Option.some.injEq]
    apply Nat.eq_of_testBit_eq
    intro i
    have bit : (mask.setWidth 64).getLsbD i =
        decide (i < idx.randParams.numBlocks.log2 + idx.nbits.toNat) := by
      rw [BitVec.getLsbD_setWidth, idx.getLsbD_mask mask masked, ← Bool.decide_and]
      apply decide_eq_decide.mpr
      omega
    rw [BitVec.testBit_toNat, maskedIndex, BitVec.getLsbD_and, bit, BitVec.getLsbD_ushiftRight,
      RandParams.extractIndex, Nat.testBit_and, Nat.testBit_shiftRight, fits.testBit_indexMask]
    rfl

theorem narrow_refines_mebibyte : (mebibyte 4).Narrow ∧
    ((mebibyte 4).extractTag 4096#64).map BitVec.toNat =
      some ((mebibyte 4).randParams.extractTag 4096) ∧
    ((mebibyte 4).extractIndex 4096#64).map BitVec.toNat =
      some ((mebibyte 4).randParams.extractIndex 4096) := by
  have narrow : (mebibyte 4).Narrow := ⟨by decide, by decide +kernel⟩
  exact ⟨narrow, narrow_refines narrow 4096#64⟩

end NewRandIdx

end RasCache.Mem
