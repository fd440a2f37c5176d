import Mathlib.Algebra.Group.Nat.Defs
import Mathlib.Data.BitVec

/-!
# Bit fields

Model of the functions of `base/bitfield.hh` on 64-bit words, each with the lemma that
says what its single bits are. Positions are C++ `unsigned` numbers of 32 bits.
-/
namespace RasCache.Base

def mask (nbits : Nat) : BitVec 64 :=
  if nbits ≥ 64 then BitVec.allOnes 64 else BitVec.ofNat 64 (2 ^ nbits - 1)

def sext (N : Nat) (val : BitVec 64) : BitVec 64 :=
  if val.getLsbD (N - 1) then val ||| ~~~ mask N else val

theorem getLsbD_mask (nbits j : Nat) : (mask nbits).getLsbD j = decide (j < nbits ∧ j < 64) := by
  rw [mask]
  split
  next =>
    rw [BitVec.getLsbD_allOnes, decide_eq_decide]
    omega
  next =>
    rw [BitVec.getLsbD_ofNat, Nat.testBit_two_pow_sub_one, ← Bool.decide_and, decide_eq_decide]
    omega

/-- The bits from `N` on are copies of the bit below them. -/
theorem getLsbD_sext {N : Nat} (positive : 1 ≤ N) (narrow : N ≤ 64) (val : BitVec 64) (j : Nat) :
    (sext N (val &&& mask N)).getLsbD j =
      if j < N then val.getLsbD j else decide (j < 64) && val.getLsbD (N - 1) := by
  have sign : (val &&& mask N).getLsbD (N - 1) = val.getLsbD (N - 1) := by
    have : N - 1 < N ∧ N - 1 < 64 := by omega
    rw [BitVec.getLsbD_and, getLsbD_mask, decide_eq_true this, Bool.and_true]
  have kept : (val &&& mask N).getLsbD j = (val.getLsbD j && decide (j < N)) := by
    rw [BitVec.getLsbD_and, getLsbD_mask]
    by_cases below : j < 64
    · simp [below]
    · simp [BitVec.getLsbD_of_ge val j (Nat.le_of_not_lt below)]
  rw [sext, sign]
  by_cases low : j < N
  · cases val.getLsbD (N - 1) <;> simp [-BitVec.getLsbD_and, kept, low, getLsbD_mask]
  · cases val.getLsbD (N - 1) <;> simp [-BitVec.getLsbD_and, kept, low, getLsbD_mask]

/-- `insertBits(val, first, last, bit_val)`; `first + 1` can wrap around. -/
def insertBits (val : BitVec 64) (first last : BitVec 32) (bitVal : BitVec 64) : BitVec 64 :=
  let bmask := mask (first + 1).toNat &&& ~~~ mask last.toNat
  (val &&& ~~~ bmask) ||| ((bitVal <<< last.toNat) &&& bmask)

/-- The low bits are replaced, with `first` one less than their number, or `-1` for none. -/
theorem getLsbD_insertLow (val bitVal : BitVec 64) {count : Nat} (small : count < 64) (j : Nat) :
    (insertBits val (BitVec.ofInt 32 (count - 1)) 0 bitVal).getLsbD j =
      if j < count then bitVal.getLsbD j else val.getLsbD j := by
  have next : (BitVec.ofInt 32 (count - 1) + 1).toNat = count := by
    have : BitVec.ofInt 32 (count - 1) + 1 = BitVec.ofInt 32 count := by
      rw [show (1 : BitVec 32) = BitVec.ofInt 32 1 from rfl, ← BitVec.ofInt_add, Int.sub_add_cancel]
    rw [this, BitVec.ofInt_natCast, BitVec.toNat_ofNat, Nat.mod_eq_of_lt (by omega)]
  simp only [insertBits, next, BitVec.getLsbD_or, BitVec.getLsbD_and, BitVec.getLsbD_not,
    getLsbD_mask]
  by_cases inside : j < 64
  · by_cases low : j < count <;> simp [low, inside]
  · have high : ¬ j < count := by omega
    simp [high, inside, BitVec.getLsbD_of_ge val j (Nat.le_of_not_lt inside)]

variable {bit : Nat}

/-- One bit is replaced by the lowest bit of the value. -/
theorem getLsbD_insertBit (val bitVal : BitVec 64) (small : bit < 64) (j : Nat) :
    (insertBits val (BitVec.ofNat 32 bit) (BitVec.ofNat 32 bit) bitVal).getLsbD j =
      if j = bit then bitVal.getLsbD 0 else val.getLsbD j := by
  have here : (BitVec.ofNat 32 bit).toNat = bit := by
    rw [BitVec.toNat_ofNat, Nat.mod_eq_of_lt (by omega)]
  have next : (BitVec.ofNat 32 bit + 1).toNat = bit + 1 := by
    rw [BitVec.toNat_add, here]
    exact Nat.mod_eq_of_lt (show bit + 1 < 2 ^ 32 by omega)
  simp only [insertBits, next, here, BitVec.getLsbD_or, BitVec.getLsbD_and, BitVec.getLsbD_not,
    getLsbD_mask, BitVec.getLsbD_shiftLeft]
  by_cases same : j = bit
  · subst same
    simp [small]
  · by_cases low : j < bit
    · have : j < bit + 1 := by omega
      have inside : j < 64 := by omega
      simp [same, low, this, inside]
    · have : ¬ j < bit + 1 := by omega
      by_cases inside : j < 64
      · simp [same, low, this, inside]
      · simp [same, low, this, inside, BitVec.getLsbD_of_ge val j (Nat.le_of_not_lt inside)]

/-! ### Counting bits -/

def popCount (val : BitVec 64) : Nat := (List.range 64).countP val.getLsbD

variable {value a b : BitVec 64}

theorem popCount_congr (same : ∀ j < 64, a.getLsbD j = b.getLsbD j) : popCount a = popCount b := by
  rw [BitVec.eq_of_getLsbD_eq same]

/-- One bit counts for itself. -/
theorem popCount_without (small : bit < 64) (gone : b.getLsbD bit = false)
    (same : ∀ j < 64, j ≠ bit → b.getLsbD j = a.getLsbD j) :
    popCount a = popCount b + (a.getLsbD bit).toNat := by
  have count (n : Nat) (few : n ≤ 64) : (List.range n).countP a.getLsbD =
      (List.range n).countP b.getLsbD + if bit < n then (a.getLsbD bit).toNat else 0 := by
    induction n with
    | zero => simp
    | succ n ih =>
      rw [List.range_succ, List.countP_append, List.countP_append, ih (by omega),
        List.countP_singleton, List.countP_singleton]
      by_cases here : n = bit
      · subst here
        rw [gone]
        cases a.getLsbD n <;> simp
      · rw [same n (by omega) here]
        by_cases below : bit < n
        · rw [if_pos below, if_pos (show bit < n + 1 by omega)]
          omega
        · rw [if_neg below, if_neg (show ¬ bit < n + 1 by omega)]
          omega
  rw [popCount, popCount, count 64 (Nat.le_refl _), if_pos small]

/-- The position of the lowest bit, or 64. -/
def ctz64 (value : BitVec 64) : Nat := ((List.range 64).find? value.getLsbD).getD 64

theorem ctz64_eq (small : bit < 64) (set : value.getLsbD bit = true)
    (least : ∀ j < bit, value.getLsbD j = false) : ctz64 value = bit := by
  have found : (List.range 64).find? value.getLsbD = some bit := List.find?_range_eq_some.mpr
      ⟨set, List.mem_range.mpr small, fun j below => by simp [least j below]⟩
  rw [ctz64, found, Option.getD_some]

theorem ctz64_spec (nonzero : value ≠ 0) : ctz64 value < 64 ∧ value.getLsbD (ctz64 value) = true ∧
      ∀ j < ctz64 value, value.getLsbD j = false := by
  cases found : (List.range 64).find? value.getLsbD with
  | none =>
    refine absurd (BitVec.eq_of_getLsbD_eq fun j below => ?_) nonzero
    simpa using List.find?_eq_none.mp found j (List.mem_range.mpr below)
  | some =>
    obtain ⟨set, below, least⟩ := List.find?_range_eq_some.mp found
    rw [ctz64, found, Option.getD_some]
    exact ⟨List.mem_range.mp below, set, fun j lower => by simpa using least j lower⟩

end RasCache.Base
