import Mathlib.Algebra.Group.Nat.Defs

/-!
# Fields of machine words

The low bits of a word are cleared with the mask of a power of two, and fields
are cut out and put back by shifts. Words are compared bit by bit; the arithmetic
reading of a cleared word is `alignDown_toNat`.
-/
namespace WordFields

variable {w : Nat}

/-- The word with its `k` low bits cleared. -/
def alignDown (k : Nat) (x : BitVec w) : BitVec w := x &&& ~~~(BitVec.ofNat w (2 ^ k - 1))

theorem getLsbD_alignDown (k i : Nat) (x : BitVec w) :
    (alignDown k x).getLsbD i = (x.getLsbD i && decide (k ≤ i)) := by
  by_cases inside : i < w
  · have high : (!decide (i < k)) = decide (k ≤ i) := by
      rw [← decide_not]
      simp only [Nat.not_lt]
    simp only [alignDown, BitVec.getLsbD_and, BitVec.getLsbD_not, BitVec.getLsbD_ofNat,
      Nat.testBit_two_pow_sub_one, inside, decide_true, Bool.true_and, high]
  · simp only [BitVec.getLsbD_of_ge _ _ (Nat.le_of_not_lt inside), Bool.false_and]

theorem alignDown_eq_shift (k : Nat) (x : BitVec w) : alignDown k x = (x >>> k) <<< k := by
  apply BitVec.eq_of_getLsbD_eq
  intro i inside
  rw [getLsbD_alignDown, BitVec.getLsbD_shiftLeft, BitVec.getLsbD_ushiftRight]
  by_cases low : i < k
  · simp [low, Nat.not_le_of_lt low]
  · have split : k + (i - k) = i := by omega
    simp [inside, low, Nat.le_of_not_lt low, split]

theorem alignDown_toNat (k : Nat) (x : BitVec w) :
    (alignDown k x).toNat = x.toNat / 2 ^ k * 2 ^ k := by
  have bound : x.toNat / 2 ^ k * 2 ^ k < 2 ^ w :=
    Nat.lt_of_le_of_lt (Nat.div_mul_le_self _ _) x.isLt
  rw [alignDown_eq_shift, BitVec.toNat_shiftLeft, BitVec.toNat_ushiftRight,
    Nat.shiftRight_eq_div_pow, Nat.shiftLeft_eq, Nat.mod_eq_of_lt bound]

/-- The bits a word loses are not the ones that are cleared. -/
theorem alignDown_ofNat (k n : Nat) (inside : k ≤ w) :
    alignDown k (BitVec.ofNat w n) = BitVec.ofNat w (n / 2 ^ k * 2 ^ k) := by
  apply BitVec.eq_of_toNat_eq
  have size : 2 ^ w = 2 ^ k * 2 ^ (w - k) := by rw [← Nat.pow_add, Nat.add_sub_cancel' inside]
  rw [alignDown_toNat, BitVec.toNat_ofNat, BitVec.toNat_ofNat, size, Nat.mod_mul_right_div_self,
    ← Nat.mul_mod_mul_right, Nat.mul_comm (2 ^ (w - k))]

/-- Two words agree above the `k` low bits when one lies in the range of the
other. -/
theorem alignDown_eq_iff (k : Nat) (x y : BitVec w) : alignDown k x = alignDown k y ↔
    x.toNat / 2 ^ k * 2 ^ k ≤ y.toNat ∧ y.toNat < x.toNat / 2 ^ k * 2 ^ k + 2 ^ k := by
  have positive : 0 < 2 ^ k := Nat.two_pow_pos k
  have numbers : alignDown k x = alignDown k y ↔ y.toNat / 2 ^ k = x.toNat / 2 ^ k := by
    rw [← BitVec.toNat_inj, alignDown_toNat, alignDown_toNat]
    exact ⟨fun same => (Nat.eq_of_mul_eq_mul_right positive same).symm, fun same => by rw [same]⟩
  rw [numbers, Nat.div_eq_iff positive]
  omega

/-- A shift that loses the cleared bits anyway. -/
theorem alignDown_shiftRight {k m : Nat} (x : BitVec w) (lost : k ≤ m) :
    alignDown k x >>> m = x >>> m := by
  apply BitVec.eq_of_getLsbD_eq
  intro i _
  have above : k ≤ m + i := by omega
  simp only [BitVec.getLsbD_ushiftRight, getLsbD_alignDown, above, decide_true, Bool.and_true]

/-- Clearing fewer bits first makes no difference. -/
theorem alignDown_alignDown {k m : Nat} (x : BitVec w) (fewer : k ≤ m) :
    alignDown m (alignDown k x) = alignDown m x := by
  apply BitVec.eq_of_getLsbD_eq
  intro i _
  by_cases above : m ≤ i
  · have also : k ≤ i := Nat.le_trans fewer above
    simp only [getLsbD_alignDown, above, also, decide_true, Bool.and_true]
  · simp only [getLsbD_alignDown, above, decide_false, Bool.and_false]

/-- The mask of the `k` low bits. -/
theorem getLsbD_lowMask {k : Nat} (i : Nat) (inside : k < w) :
    (1#w <<< k - 1#w).getLsbD i = decide (i < k) := by
  have power : 1#w <<< k - 1#w = BitVec.ofNat w (2 ^ k - 1) := by
    apply BitVec.eq_of_toNat_eq
    have bound : 2 ^ k < 2 ^ w := Nat.pow_lt_pow_right (by decide) inside
    have one : 1 < 2 ^ w := Nat.one_lt_two_pow (by omega)
    have some : 0 < 2 ^ k := Nat.two_pow_pos _
    rw [BitVec.toNat_sub, BitVec.toNat_shiftLeft, BitVec.toNat_ofNat, BitVec.toNat_ofNat,
      Nat.shiftLeft_eq, Nat.mod_eq_of_lt one, Nat.one_mul, Nat.mod_eq_of_lt bound]
    have wrap : 2 ^ w - 1 + 2 ^ k = 2 ^ k - 1 + 2 ^ w := by omega
    rw [wrap, Nat.add_mod_right]
  rw [power, BitVec.getLsbD_ofNat, Nat.testBit_two_pow_sub_one, ← Bool.decide_and]
  apply decide_eq_decide.mpr
  omega

/-! ### Signed words -/

theorem ofInt_shiftLeft (k : Nat) (i : Int) :
    BitVec.ofInt w i <<< k = BitVec.ofInt w (i * (2 ^ k : Nat)) := by
  have power : BitVec.twoPow w k = BitVec.ofInt w ((2 ^ k : Nat) : Int) := by
    apply BitVec.eq_of_toNat_eq
    rw [BitVec.toNat_twoPow, BitVec.ofInt_natCast, BitVec.toNat_ofNat]
  rw [BitVec.shiftLeft_eq_mul_twoPow, BitVec.ofInt_mul, power]

/-- A sum with a signed word wraps around the range of the unsigned one. -/
theorem toNat_add_toInt (x y : BitVec w) :
    ((x + y).toNat : Int) = ((x.toNat : Int) + y.toInt) % ((2 ^ w : Nat) : Int) := by
  rw [BitVec.toNat_add, BitVec.toInt_eq_toNat_bmod, Int.natCast_emod, Int.natCast_add,
    Int.add_emod (x.toNat : Int) ((y.toNat : Int).bmod (2 ^ w)), Int.bmod_emod, ← Int.add_emod]

end WordFields
