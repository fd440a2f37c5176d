import RasCache.Base.Bitfield

/-!
# Patterns of the dictionary compressors

Model of the words, dictionary entries and patterns of `DictionaryCompressor`
(`mem/cache/compressors/dictionary_compressor.hh`). A word of `n` bytes is a
`BitVec (8 * n)`; a dictionary entry is the list of its bytes, least significant first.

`SignExtendedPattern` compares a word with a sign extension to 64 bits. For words that
are narrower than that the comparison never accepts a negative value
(`isPattern_iff`).
-/
namespace RasCache.Mem.Compressor

open Base

/-- The bytes of a `std::array<uint8_t, sizeof(T)>`. -/
abbrev DictionaryEntry := List (BitVec 8)

/-- The loop of `toDictionaryEntry`. -/
def bytesOf {w : Nat} : Nat → BitVec w → DictionaryEntry
  | 0, _ => []
  | count + 1, value => value.setWidth 8 :: bytesOf count (value >>> 8)

def toDictionaryEntry {n : Nat} (value : BitVec (8 * n)) : DictionaryEntry := bytesOf n value

/-- The loop starts with the last byte. -/
def fromDictionaryEntry (n : Nat) (entry : DictionaryEntry) : BitVec (8 * n) :=
  entry.foldr (fun byte value => value <<< 8 ||| byte.setWidth (8 * n)) 0

theorem getLsbD_gather {w : Nat} (count j : Nat) (value : BitVec w) :
    ((bytesOf count value).foldr (fun byte (sum : BitVec w) => sum <<< 8 ||| byte.setWidth w)
      0).getLsbD j = (value.getLsbD j && decide (j < 8 * count)) := by
  induction count generalizing j value with
  | zero => simp [bytesOf]
  | succ count ih =>
    rw [bytesOf, List.foldr_cons, BitVec.getLsbD_or, BitVec.getLsbD_shiftLeft, ih,
      BitVec.getLsbD_setWidth, BitVec.getLsbD_setWidth, BitVec.getLsbD_ushiftRight]
    by_cases inside : j < w
    · by_cases low : j < 8
      · have : j < 8 * (count + 1) := by omega
        simp [inside, low, this]
      · have split : 8 + (j - 8) = j := by omega
        have shift : j - 8 < 8 * count ↔ j < 8 * (count + 1) := by omega
        simp [inside, low, split, shift]
    · simp [inside, BitVec.getLsbD_of_ge value j (Nat.le_of_not_lt inside)]

@[simp] theorem fromDictionaryEntry_to {n : Nat} (value : BitVec (8 * n)) :
    fromDictionaryEntry n (toDictionaryEntry value) = value := by
  apply BitVec.eq_of_getLsbD_eq
  intro _ inside
  rw [fromDictionaryEntry, toDictionaryEntry, getLsbD_gather, decide_eq_true inside, Bool.and_true]

namespace SignExtendedPattern

variable {n N : Nat}

/-- The word is converted to the 64 bits of the sign extension without its sign. -/
def isPattern (n N : Nat) (bytes : DictionaryEntry) : Bool :=
  let data := (fromDictionaryEntry n bytes).setWidth 64
  data == sext N (data &&& mask N)

/-- The bit-field of `N` bits that is stored. -/
def bits (n N : Nat) (bytes : DictionaryEntry) : BitVec N :=
  ((fromDictionaryEntry n bytes).setWidth 64 &&& mask N).setWidth N

def decompress (n : Nat) (bits : BitVec N) : DictionaryEntry :=
  toDictionaryEntry ((sext N (bits.setWidth 64)).setWidth (8 * n))

/-- All bits from position `N` upwards equal bit `N - 1`. -/
def Extended (N : Nat) (word : BitVec (8 * n)) : Prop :=
  ∀ j, N ≤ j → j < 8 * n → word.getLsbD j = word.getLsbD (N - 1)

theorem isPattern_iff (bytes : n ≤ 8) (positive : 1 ≤ N) (narrow : N ≤ 8 * n)
    (word : BitVec (8 * n)) : isPattern n N (toDictionaryEntry word) = true ↔
      Extended N word ∧ (8 * n = 64 ∨ word.getLsbD (N - 1) = false) := by
  have wide {j : Nat} : (word.setWidth 64).getLsbD j = word.getLsbD j := by
    by_cases below : j < 64
    · simp [below]
    · rw [BitVec.getLsbD_of_ge _ _ (Nat.le_of_not_lt below), BitVec.getLsbD_of_ge _ _ (by omega)]
  have extended (j : Nat) := getLsbD_sext positive (by omega) (word.setWidth 64) j
  simp only [wide] at extended
  rw [isPattern, fromDictionaryEntry_to, beq_iff_eq]
  constructor
  · intro same
    have bit (j : Nat) (high : N ≤ j) (below : j < 64) :
        word.getLsbD j = word.getLsbD (N - 1) := by
      rw [← wide, same, extended, if_neg (Nat.not_lt.mpr high), decide_eq_true below, Bool.true_and]
    refine ⟨fun j high below => bit j high (by omega), ?_⟩
    by_cases full : 8 * n = 64
    · exact .inl full
    · -- the bits past the word are zero
      right
      rw [← bit (8 * n) narrow (by omega)]
      exact BitVec.getLsbD_of_ge word _ (Nat.le_refl _)
  · rintro ⟨copies, sign⟩
    apply BitVec.eq_of_getLsbD_eq
    intro j below
    rw [wide, extended]
    split
    next => rfl
    next high =>
      rw [decide_eq_true below, Bool.true_and]
      by_cases inside : j < 8 * n
      · exact copies j (Nat.le_of_not_lt high) inside
      · rw [sign.resolve_left (by omega), BitVec.getLsbD_of_ge word j (Nat.le_of_not_lt inside)]

theorem decompress_bits (bytes : n ≤ 8) {word : BitVec (8 * n)}
    (accepted : isPattern n N (toDictionaryEntry word) = true) :
    decompress n (bits n N (toDictionaryEntry word)) = toDictionaryEntry word := by
  have stored : (bits n N (toDictionaryEntry word)).setWidth 64 = word.setWidth 64 &&& mask N := by
    rw [bits, fromDictionaryEntry_to]
    apply BitVec.eq_of_getLsbD_eq
    intro j below
    simp only [BitVec.getLsbD_setWidth, BitVec.getLsbD_and, getLsbD_mask, below]
    by_cases low : j < N <;> simp [low]
  rw [isPattern, fromDictionaryEntry_to, beq_iff_eq] at accepted
  rw [decompress, stored, ← accepted]
  congr 1
  apply BitVec.eq_of_getLsbD_eq
  intro j inside
  have below : j < 64 := by omega
  simp [inside, below]

/-- Among the words whose upper bits are copies of bit `N - 1`, exactly the negative ones
of fewer than 64 bits are not recognised. A word that is accepted comes back. -/
theorem accepts_extended_iff (bytes : n ≤ 8) (positive : 1 ≤ N) (narrow : N ≤ 8 * n)
    (word : BitVec (8 * n)) : ((isPattern n N (toDictionaryEntry word) = true ↔ Extended N word) ↔
      8 * n = 64 ∨ ¬ (Extended N word ∧ word.getLsbD (N - 1) = true)) ∧
    (isPattern n N (toDictionaryEntry word) = true →
      fromDictionaryEntry n (decompress n (bits n N (toDictionaryEntry word))) = word) := by
  constructor
  · rw [isPattern_iff bytes positive narrow]
    cases word.getLsbD (N - 1) <;> simp
    tauto
  · intro accepted
    rw [decompress_bits bytes accepted, fromDictionaryEntry_to]

/-- The byte 1 as a number of 4 bits. -/
theorem accepts_extended_byte : isPattern 1 4 (toDictionaryEntry (1 : BitVec (8 * 1))) = true ∧
    (isPattern 1 4 (toDictionaryEntry (1 : BitVec (8 * 1))) = true → fromDictionaryEntry 1
        (decompress 1 (bits 1 4 (toDictionaryEntry (1 : BitVec (8 * 1))))) = 1) :=
  ⟨by decide, (accepts_extended_iff (by decide) (by decide) (by decide) _).2⟩

/-- Minus one is a sign-extended number of any width, and is refused as a 32-bit word. -/
theorem refuses_minus_one :
    isPattern 4 8 (toDictionaryEntry (0xFFFFFFFF : BitVec (8 * 4))) = false ∧
      Extended 8 (0xFFFFFFFF : BitVec (8 * 4)) := by
  refine ⟨by decide, fun j high below => ?_⟩
  have ones : (0xFFFFFFFF : BitVec (8 * 4)) = BitVec.allOnes (8 * 4) := by decide
  rw [ones, BitVec.getLsbD_allOnes, decide_eq_true below]
  rfl

end SignExtendedPattern
end RasCache.Mem.Compressor
