import Mathlib.Data.List.Pairwise
import Mathlib.Data.List.Sort
import RasCache.Base.Bitfield

/-!
# Interleaved address ranges

Model of `contains`, `removeIntlvBits`, `addIntlvBits` and `isSubset` of `AddrRange`
(`base/addr_range.hh`). A shift of an `int` by more than 31 places is undefined (`none`).

Three of these functions compute with an `int` where they should use 64 bits. The bit
that `addIntlvBits` clears with `1 << lsb` limits the round trip to masks that start below
bit 31 (`roundTrip_iff`), and the `int` that `granularity` collects the masks in limits
`isSubset` to masks that start below bit 32 (`subsetTest_iff`).
-/
namespace RasCache.Base

/-- The range from `start` up to `stop`, with one mask for each bit of the selector. -/
structure IntlvRange where
  start : BitVec 64
  stop : BitVec 64
  masks : List (BitVec 64)
  intlvMatch : BitVec 8

namespace IntlvRange

variable {r : IntlvRange} {a b x : BitVec 64} {masks : List (BitVec 64)}

def interleaved (r : IntlvRange) : Bool := r.masks.length > 0

def odd (val : BitVec 64) : Bool := popCount val % 2 = 1

/-- The loop of `contains`. -/
def sel (a : BitVec 64) : Nat → List (BitVec 64) → BitVec 32 → Option (BitVec 32)
  | _, [], sum => some sum
  | i, mask :: masks, sum =>
      if i < 32 then
        sel a (i + 1) masks (sum ||| (BitVec.ofNat 32 (popCount (a &&& mask) % 2)) <<< i)
      else none

def contains (r : IntlvRange) (a : BitVec 64) : Option Bool :=
  if r.start ≤ a ∧ a < r.stop then
    (sel a 0 r.masks 0).map (· == r.intlvMatch.setWidth 32)
  else some false

/-- The lowest bits of the masks after `std::sort`. -/
def masksLsb (r : IntlvRange) : List Nat := (r.masks.map ctz64).insertionSort (· ≤ ·)

/-- The loop of `removeIntlvBits`. -/
def removeFrom : Nat → List Nat → BitVec 64 → BitVec 64
  | _, [], a => a
  | i, intlvBit :: rest, a =>
      removeFrom (i + 1) rest
        (if intlvBit > 0 then insertBits (a >>> 1) (BitVec.ofInt 32 (intlvBit - i - 1)) 0 a
        else a >>> 1)

def removeIntlvBits (r : IntlvRange) (a : BitVec 64) : BitVec 64 :=
  if r.interleaved then removeFrom 0 r.masksLsb a else a

/-- The first loop of `addIntlvBits` makes room for the bits. -/
def addFrom : List Nat → BitVec 64 → BitVec 64
  | [], a => a
  | intlvBit :: rest, a =>
      addFrom rest
        (if intlvBit > 0 then insertBits (a <<< 1) (BitVec.ofInt 32 (intlvBit - 1)) 0 a
        else a <<< 1)

/-- The `int` with the bits other than `lsb`, converted to 64 bits. -/
def otherBits (lsb : Nat) : BitVec 64 := (~~~ ((1 : BitVec 32) <<< lsb)).signExtend 64

/-- The second loop sets the lowest bit of each mask. -/
def setFrom (intlvMatch : BitVec 8) : Nat → List (BitVec 64) → BitVec 64 → Option (BitVec 64)
  | _, [], a => some a
  | i, mask :: masks, a =>
      let lsb := ctz64 mask
      if i < 32 ∧ lsb < 32 then
        let masked := a &&& mask &&& otherBits lsb
        setFrom intlvMatch (i + 1) masks
          (insertBits a (BitVec.ofNat 32 lsb) (BitVec.ofNat 32 lsb)
            (BitVec.ofNat 64 (intlvMatch.getLsbD i).toNat ^^^ BitVec.ofNat 64 (popCount masked)))
      else none

def addIntlvBits (r : IntlvRange) (a : BitVec 64) : Option (BitVec 64) :=
  if r.interleaved then setFrom r.intlvMatch 0 r.masks (addFrom r.masksLsb a) else some a

def size (r : IntlvRange) : BitVec 64 := (r.stop - r.start) >>> r.masks.length

/-- The masks are collected in an `int`; without a bit in it, 1 is shifted by 64 places. -/
def granularity (r : IntlvRange) : Option (BitVec 64) :=
  if r.interleaved then
    let combinedMask := r.masks.foldl (fun sum mask => sum ||| mask.setWidth 32) (0 : BitVec 32)
    let lowestBit := ctz64 (combinedMask.signExtend 64)
    if lowestBit < 64 then some ((1 : BitVec 64) <<< lowestBit) else none
  else some r.size

def isSubset (range r : IntlvRange) : Option Bool :=
  if range.interleaved then none
  else if r.interleaved then do
    if ← r.contains range.start then
      if ← r.contains (range.stop - 1) then
        return range.size ≤ (← r.granularity)
      else return false
    else return false
  else some (range.start ≥ r.start && range.stop ≤ r.stop)

/-! ### The selector -/

theorem sel_congr (same : ∀ mask ∈ masks, popCount (a &&& mask) = popCount (b &&& mask)) (i : Nat)
    (sum : BitVec 32) : sel a i masks sum = sel b i masks sum := by
  induction masks generalizing i sum with
  | nil => rfl
  | cons mask _ ih =>
    rw [sel, sel, same mask List.mem_cons_self]
    split
    next => exact ih (fun other mem => same other (List.mem_cons_of_mem mask mem)) _ _
    next => rfl

variable {j i : Nat} {mask : BitVec 64} {ps : List Nat} {intlvMatch : BitVec 8}

theorem getLsbD_parity (a : BitVec 64) (small : i < 32) (j : Nat) :
    ((BitVec.ofNat 32 (popCount a % 2)) <<< i).getLsbD j = (decide (j = i) && odd a) := by
  rw [BitVec.getLsbD_shiftLeft, BitVec.getLsbD_ofNat, odd]
  by_cases same : j = i
  · subst same
    rcases Nat.mod_two_eq_zero_or_one (popCount a) with even | odd
    · simp [even]
    · simp [odd, small]
  · rcases Nat.lt_or_gt_of_ne same with low | high
    · simp [same, low]
    · have : (popCount a % 2).testBit (j - i) = false := by
        apply Nat.testBit_lt_two_pow
        have := Nat.pow_le_pow_right (by decide : 0 < 2) (show 1 ≤ j - i by omega)
        omega
      simp [same, this]

/-- Bit `k` of the selector is the parity for mask `k`. -/
theorem getLsbD_sel {sum result : BitVec 32} (start : i ≤ 32)
    (above : ∀ j, i ≤ j → sum.getLsbD j = false) (done : sel a i masks sum = some result) :
    i + masks.length ≤ 32 ∧ (∀ j < i, result.getLsbD j = sum.getLsbD j) ∧
      ∀ k mask, masks[k]? = some mask → result.getLsbD (i + k) = odd (a &&& mask) := by
  induction masks generalizing i sum with
  | nil =>
    cases done
    exact ⟨start, fun _ _ => rfl, nofun⟩
  | cons mask _ ih =>
    rw [sel] at done
    split at done
    next small =>
      have bit (j : Nat) : (sum ||| (BitVec.ofNat 32 (popCount (a &&& mask) % 2)) <<< i).getLsbD j =
          (sum.getLsbD j || decide (j = i) && odd (a &&& mask)) := by
        rw [BitVec.getLsbD_or, getLsbD_parity _ small]
      obtain ⟨_, below, found⟩ := ih small (fun j high => by
        rw [bit, above j (by omega), decide_eq_false (show j ≠ i by omega)]
        rfl) done
      refine ⟨by rw [List.length_cons]; omega, fun j low => ?_, fun k other here => ?_⟩
      · rw [below j (by omega), bit, decide_eq_false (show j ≠ i by omega), Bool.false_and,
          Bool.or_false]
      · cases k with
        | zero =>
          cases here
          rw [Nat.add_zero, below i (by omega), bit, above i (Nat.le_refl i), decide_eq_true rfl]
          rfl
        | succ k =>
          rw [← Nat.add_assoc, Nat.add_right_comm]
          exact found k other here
    next => cases done

theorem range_of_contains (within : r.contains a = some true) : r.start ≤ a ∧ a < r.stop := by
  rw [contains] at within
  split at within
  next inside => exact inside
  next => cases within

/-- An address of the range has the parities that the range asks for. -/
theorem parity_of_contains (within : r.contains a = some true) : r.masks.length ≤ 32 ∧
      ∀ i mask, r.masks[i]? = some mask → odd (a &&& mask) = r.intlvMatch.getLsbD i := by
  rw [contains] at within
  split at within
  next =>
    obtain ⟨_, done, same⟩ := Option.map_eq_some_iff.mp within
    obtain ⟨_, -, found⟩ := getLsbD_sel (Nat.zero_le 32) (fun j _ => BitVec.getLsbD_zero) done
    rw [beq_iff_eq] at same
    refine ⟨by omega, fun i mask here => ?_⟩
    have small : i < r.masks.length := (List.getElem?_eq_some_iff.mp here).1
    rw [← found i mask here, same, BitVec.getLsbD_setWidth, decide_eq_true (by omega),
      Bool.true_and,
      Nat.zero_add]
  next => cases within

/-! ### Positions -/

/-- How many of the positions are below one. -/
def rank (ps : List Nat) (j : Nat) : Nat := ps.countP (· < j)

theorem rank_eq_zero (above : ∀ p ∈ ps, j ≤ p) : rank ps j = 0 := by
  simpa [rank] using above

variable {p : Nat}

theorem rank_room (sorted : (p :: ps).Pairwise (· < ·)) (below : p < j) : rank ps j + p < j := by
  induction ps generalizing p with
  | nil => simpa [rank] using below
  | cons q _ ih =>
    obtain ⟨first, rest⟩ := List.pairwise_cons.mp sorted
    have after := first q List.mem_cons_self
    by_cases low : q < j
    · have room := ih rest low
      simp only [rank, List.countP_cons, decide_eq_true low, if_true] at room ⊢
      omega
    · rw [rank_eq_zero]
      · omega
      · intro other mem
        rcases List.mem_cons.mp mem with rfl | behind
        · omega
        · have := (List.pairwise_cons.mp rest).1 other behind
          omega

theorem getLsbD_removed (small : p < 64) (above : i ≤ p) (j : Nat) :
    (if p > 0 then insertBits (a >>> 1) (BitVec.ofInt 32 (p - i - 1)) 0 a else a >>> 1).getLsbD j =
      if j < p - i then a.getLsbD j else a.getLsbD (j + 1) := by
  split
  next =>
    have place : ((p : Int) - i - 1) = ((p - i : Nat) : Int) - 1 := by omega
    rw [place, getLsbD_insertLow _ _ (by omega), BitVec.getLsbD_ushiftRight, Nat.add_comm 1]
  next =>
    rw [if_neg (by omega), BitVec.getLsbD_ushiftRight, Nat.add_comm 1]

theorem getLsbD_added (small : p < 64) (inside : j < 64) :
    (if p > 0 then insertBits (b <<< 1) (BitVec.ofInt 32 (p - 1)) 0 b else b <<< 1).getLsbD j =
      if j < p then b.getLsbD j else decide (1 ≤ j) && b.getLsbD (j - 1) := by
  have shifted : (b <<< 1).getLsbD j = (decide (1 ≤ j) && b.getLsbD (j - 1)) := by
    rw [BitVec.getLsbD_shiftLeft, decide_eq_true inside, Bool.true_and]
    simp [Nat.one_le_iff_ne_zero]
  split
  next => rw [getLsbD_insertLow _ _ small, shifted]
  next => rw [if_neg (by omega), shifted]

/-- The other bits move down by the number of removed ones below them. -/
theorem getLsbD_removeFrom (sorted : ps.Pairwise (· < ·)) (bounds : ∀ p ∈ ps, i ≤ p ∧ p < 64)
    (apart : j + i ∉ ps) : (removeFrom i ps a).getLsbD (j - rank ps (j + i)) = a.getLsbD j := by
  induction ps generalizing i j a with
  | nil => rfl
  | cons p ps ih =>
    obtain ⟨first, rest⟩ := List.pairwise_cons.mp sorted
    obtain ⟨above, small⟩ := bounds p List.mem_cons_self
    obtain ⟨different, _⟩ := not_or.mp (mt List.mem_cons.mpr apart)
    have bounds' (q : Nat) (mem : q ∈ ps) : i + 1 ≤ q ∧ q < 64 := by
      have := first q mem
      exact ⟨by omega, (bounds q (List.mem_cons_of_mem p mem)).2⟩
    have step := getLsbD_removed (a := a) small above
    rw [removeFrom]
    generalize (if p > 0 then insertBits (a >>> 1) (BitVec.ofInt 32 (p - i - 1)) 0 a
      else a >>> 1) = next at step ⊢
    rcases Nat.lt_or_gt_of_ne different with low | high
    · -- the bit is below this position and below all later ones
      have zero (limit : Nat) (below : limit ≤ p + 1) : rank ps limit = 0 :=
        rank_eq_zero fun q mem => Nat.le_trans below (first q mem)
      have none : rank (p :: ps) (j + i) = 0 := by
        have := zero (j + i) (by omega)
        simpa [rank, Nat.le_of_lt low] using this
      have apart' : j + (i + 1) ∉ ps := fun mem => absurd (first _ mem) (by omega)
      have kept := ih (a := next) rest bounds' apart'
      rw [zero _ (by omega)] at kept
      rw [none, kept, step, if_pos (by omega)]
    · have one : rank (p :: ps) (j + i) = rank ps (j + i) + 1 := by simp [rank, high]
      have moved : j - 1 + (i + 1) = j + i := by omega
      have kept := ih (a := next) (j := j - 1) rest bounds' (by rwa [moved])
      rw [moved] at kept
      rw [one, Nat.sub_add_eq, Nat.sub_right_comm, kept, step, if_neg (by omega)]
      congr 1
      omega

/-- The other bits move up by the number of new ones below them. -/
theorem getLsbD_addFrom (sorted : ps.Pairwise (· < ·)) (bounds : ∀ p ∈ ps, p < 64)
    (inside : j < 64) (apart : j ∉ ps) : (addFrom ps b).getLsbD j = b.getLsbD (j - rank ps j) := by
  induction ps generalizing b with
  | nil => rfl
  | cons p ps ih =>
    obtain ⟨first, rest⟩ := List.pairwise_cons.mp sorted
    obtain ⟨different, apart⟩ := not_or.mp (mt List.mem_cons.mpr apart)
    rw [addFrom, ih rest (fun q mem => bounds q (List.mem_cons_of_mem p mem)) apart,
      getLsbD_added (bounds p List.mem_cons_self) (by omega)]
    rcases Nat.lt_or_gt_of_ne different with low | high
    · have none : rank ps j = 0 := rank_eq_zero fun q mem => by
        have := first q mem
        omega
      have none' : rank (p :: ps) j = 0 := by
        simpa [rank, List.countP_cons, Nat.le_of_lt low] using none
      rw [none, none', if_pos (by omega)]
    · have room := rank_room sorted high
      have one : rank (p :: ps) j = rank ps j + 1 := by simp [rank, high]
      rw [if_neg (by omega), decide_eq_true (by omega), Bool.true_and, one, Nat.sub_sub]

/-! ### The round trip -/

/-- The masks are not zero and have no bit in common. -/
structure Masked (masks : List (BitVec 64)) : Prop where
  nonzero : ∀ mask ∈ masks, mask ≠ 0
  disjoint : masks.Pairwise fun first second => first &&& second = 0

theorem not_both {first second : BitVec 64} (disjoint : first &&& second = 0)
    (here : first.getLsbD j = true) : second.getLsbD j = false := by
  simpa [here] using congrArg (BitVec.getLsbD · j) disjoint

/-- The lowest bit of a mask is in no other mask. -/
theorem Masked.lsb_apart (masked : Masked (mask :: masks)) {other : BitVec 64}
    (mem : other ∈ masks) (set : mask.getLsbD j = true) : j ≠ ctz64 other := by
  rintro rfl
  have disjoint := (List.pairwise_cons.mp masked.disjoint).1 other mem
  have low := (ctz64_spec (masked.nonzero other (List.mem_cons_of_mem mask mem))).2.1
  exact absurd (not_both disjoint set) (by simp [low])

theorem Masked.upper_apart (masked : Masked masks) (mem : mask ∈ masks)
    (set : mask.getLsbD j = true) (upper : j ≠ ctz64 mask) : ∀ other ∈ masks, j ≠ ctz64 other := by
  intro other mem'
  by_cases same : mask = other
  · exact same ▸ upper
  · rintro rfl
    have : Std.Symm fun first second : BitVec 64 => first &&& second = 0 :=
      ⟨fun _ _ apart => (BitVec.and_comm ..).trans apart⟩
    have disjoint := masked.disjoint.forall mem mem' same
    exact absurd (not_both disjoint set) (by simp [(ctz64_spec (masked.nonzero other mem')).2.1])

theorem Masked.tail (masked : Masked (mask :: masks)) : Masked masks :=
  ⟨fun other mem => masked.nonzero other (List.mem_cons_of_mem mask mem),
    (List.pairwise_cons.mp masked.disjoint).2⟩

theorem Masked.lsb_nodup (masked : Masked masks) : (masks.map ctz64).Nodup := by
  induction masks with
  | nil => exact List.nodup_nil
  | cons mask _ ih =>
    refine List.nodup_cons.mpr ⟨?_, ih masked.tail⟩
    rw [List.mem_map]
    rintro ⟨other, mem, same⟩
    exact masked.lsb_apart mem (ctz64_spec (masked.nonzero mask List.mem_cons_self)).2.1 same.symm

theorem masksLsb_perm (r : IntlvRange) : r.masksLsb.Perm (r.masks.map ctz64) :=
  List.perm_insertionSort _ _

theorem masksLsb_sorted (masked : Masked r.masks) : r.masksLsb.Pairwise (· < ·) := by
  have distinct := r.masksLsb_perm.nodup_iff.mpr masked.lsb_nodup
  have sorted : r.masksLsb.Pairwise (· ≤ ·) := List.pairwise_insertionSort _ _
  exact (sorted.and distinct).imp fun ⟨le, ne⟩ => Nat.lt_of_le_of_ne le ne

theorem masksLsb_bounds (masked : Masked r.masks) (p : Nat) (mem : p ∈ r.masksLsb) : p < 64 := by
  obtain ⟨mask, listed, rfl⟩ := List.mem_map.mp (r.masksLsb_perm.mem_iff.mp mem)
  exact (ctz64_spec (masked.nonzero mask listed)).1

/-- The bits of a mask other than the lowest one. -/
def upper (mask : BitVec 64) : BitVec 64 := mask &&& ~~~ BitVec.twoPow 64 (ctz64 mask)

theorem getLsbD_upper (inside : j < 64) :
    (upper mask).getLsbD j = (mask.getLsbD j && decide (j ≠ ctz64 mask)) := by
  rw [upper, BitVec.getLsbD_and, BitVec.getLsbD_not, BitVec.getLsbD_twoPow]
  by_cases same : j = ctz64 mask
  · simp [← same, inside]
  · simp [same, Ne.symm same, inside]

theorem and_upper_congr
    (same : ∀ j < 64, mask.getLsbD j = true → j ≠ ctz64 mask → x.getLsbD j = a.getLsbD j) :
    x &&& upper mask = a &&& upper mask := by
  apply BitVec.eq_of_getLsbD_eq
  intro j inside
  rw [BitVec.getLsbD_and, BitVec.getLsbD_and, getLsbD_upper inside]
  by_cases part : mask.getLsbD j = true ∧ j ≠ ctz64 mask
  · rw [same j inside part.1 part.2]
  · rw [(by simpa using part : (mask.getLsbD j && decide (j ≠ ctz64 mask)) = false)]
    simp

theorem getLsbD_otherBits {lsb : Nat} (small : lsb < 32) (inside : j < 64) :
    (otherBits lsb).getLsbD j = if lsb = 31 then decide (j < 31) else decide (j ≠ lsb) := by
  have bit (k : Nat) (below : k < 32) :
      (~~~ ((1 : BitVec 32) <<< lsb)).getLsbD k = decide (k ≠ lsb) := by
    have power : (1 : BitVec 32) <<< lsb = BitVec.twoPow 32 lsb := rfl
    rw [BitVec.getLsbD_not, power, BitVec.getLsbD_twoPow]
    simp [below, small, eq_comm]
  rw [otherBits, BitVec.getLsbD_signExtend, BitVec.msb_eq_getLsbD_last, bit 31 (by decide),
    decide_eq_true inside, Bool.true_and]
  by_cases low : j < 32
  · rw [if_pos low, bit j low]
    by_cases last : lsb = 31
    · rw [if_pos last, last, decide_eq_decide]
      omega
    · rw [if_neg last]
  · rw [if_neg low]
    by_cases last : lsb = 31
    · rw [if_pos last, decide_eq_decide]
      omega
    · rw [if_neg last, decide_eq_decide]
      omega

/-- The lowest bit of a mask makes up the parity. -/
theorem odd_mask (nonzero : mask ≠ 0) (a : BitVec 64) :
    odd (a &&& mask) = (odd (a &&& upper mask) ^^ a.getLsbD (ctz64 mask)) := by
  obtain ⟨small, set, -⟩ := ctz64_spec nonzero
  have count := popCount_without (a := a &&& mask) (b := a &&& upper mask) small
    (by simp [getLsbD_upper small]) fun j inside other => by simp [getLsbD_upper inside, other]
  rw [BitVec.getLsbD_and, set, Bool.and_true] at count
  rw [odd, odd, count]
  rcases Nat.mod_two_eq_zero_or_one (popCount (a &&& upper mask)) with even | odd
  · cases a.getLsbD (ctz64 mask) <;> simp [Nat.add_mod, even]
  · cases a.getLsbD (ctz64 mask) <;> simp [Nat.add_mod, odd]

/-- The round trip needs the masks to start below bit 31; at bit 31 the other bits are not
counted, so they must not matter. -/
def Restorable (a mask : BitVec 64) : Prop :=
  ctz64 mask < 31 ∨ ctz64 mask = 31 ∧ odd (a &&& upper mask) = false

theorem setFrom_other {result : BitVec 64} (masked : Masked masks)
    (done : setFrom intlvMatch i masks x = some result) (apart : ∀ mask ∈ masks, j ≠ ctz64 mask) :
    result.getLsbD j = x.getLsbD j := by
  induction masks generalizing i x with
  | nil =>
    cases done
    rfl
  | cons mask _ ih =>
    rw [setFrom] at done
    split at done
    next =>
      rw [ih masked.tail done fun other mem => apart other (List.mem_cons_of_mem mask mem),
        getLsbD_insertBit _ _ (ctz64_spec (masked.nonzero mask List.mem_cons_self)).1,
        if_neg (apart mask List.mem_cons_self)]
    next => cases done

theorem getLsbD_selected (match_ : Bool) (count : Nat) :
    (BitVec.ofNat 64 match_.toNat ^^^ BitVec.ofNat 64 count).getLsbD 0 =
      (match_ ^^ decide (count % 2 = 1)) := by
  rw [BitVec.getLsbD_xor, BitVec.getLsbD_ofNat, BitVec.getLsbD_ofNat, Nat.testBit_zero,
    Nat.testBit_zero]
  cases match_ <;> simp

/-- The bit that is set for a mask is the right one exactly if the mask is restorable. -/
theorem selected_iff (nonzero : mask ≠ 0) (low : ctz64 mask < 32)
    (same : ∀ j < 64, mask.getLsbD j = true → j ≠ ctz64 mask → x.getLsbD j = a.getLsbD j) :
    (odd (a &&& mask) ^^ decide (popCount (x &&& mask &&& otherBits (ctz64 mask)) % 2 = 1)) =
      a.getLsbD (ctz64 mask) ↔ Restorable a mask := by
  obtain ⟨-, _, least⟩ := ctz64_spec nonzero
  have kept : decide (popCount (x &&& mask &&& otherBits (ctz64 mask)) % 2 = 1) =
      (decide (ctz64 mask < 31) && odd (a &&& upper mask)) := by
    by_cases last : ctz64 mask = 31
    · have none : popCount (x &&& mask &&& otherBits (ctz64 mask)) = popCount 0 := by
        apply popCount_congr
        intro j inside
        rw [BitVec.getLsbD_and, BitVec.getLsbD_and, getLsbD_otherBits low inside, if_pos last]
        by_cases below : j < 31
        · simp [least j (by omega)]
        · simp [below]
      rw [none, decide_eq_false (show ¬ ctz64 mask < 31 by omega), Bool.false_and]
      decide
    · have all : popCount (x &&& mask &&& otherBits (ctz64 mask)) =
        popCount (a &&& upper mask) := by
        rw [← and_upper_congr same]
        apply popCount_congr
        intro j inside
        rw [BitVec.getLsbD_and, BitVec.getLsbD_and, BitVec.getLsbD_and,
          getLsbD_otherBits low inside,
          if_neg last, getLsbD_upper inside, Bool.and_assoc]
      rw [all, decide_eq_true (show ctz64 mask < 31 by omega), Bool.true_and, odd]
  rw [kept, odd_mask nonzero, Restorable]
  by_cases below : ctz64 mask < 31
  · cases odd (a &&& upper mask) <;> simp [below]
  · have last : ctz64 mask = 31 := by omega
    cases odd (a &&& upper mask) <;> simp [last]

theorem setFrom_iff (masked : Masked masks) (few : i + masks.length ≤ 32)
    (parity : ∀ k mask, masks[k]? = some mask → odd (a &&& mask) = intlvMatch.getLsbD (i + k))
    (same : ∀ j < 64, (∀ mask ∈ masks, j ≠ ctz64 mask) → x.getLsbD j = a.getLsbD j) :
    setFrom intlvMatch i masks x = some a ↔ ∀ mask ∈ masks, Restorable a mask := by
  induction masks generalizing i x with
  | nil =>
    have : x = a := BitVec.eq_of_getLsbD_eq fun j inside => same j inside nofun
    simp [setFrom, this]
  | cons mask _ ih =>
    have nonzero := masked.nonzero mask List.mem_cons_self
    obtain ⟨small, set, -⟩ := ctz64_spec nonzero
    rw [List.length_cons] at few
    rw [setFrom, List.forall_mem_cons]
    by_cases low : ctz64 mask < 32
    · rw [if_pos ⟨by omega, low⟩]
      -- the other bits of the mask are already there
      have right := selected_iff (a := a) (x := x) nonzero low fun j inside part other =>
        same j inside fun m mem => by
          rcases List.mem_cons.mp mem with rfl | behind
          · exact other
          · exact masked.lsb_apart behind part
      rw [parity 0 mask rfl, Nat.add_zero, ← getLsbD_selected] at right
      by_cases restorable : Restorable a mask
      · rw [ih masked.tail (by omega)]
        · simp [restorable]
        · intro k other here
          rw [parity (k + 1) other here, Nat.add_right_comm, Nat.add_assoc]
        · intro j inside apart
          rw [getLsbD_insertBit _ _ small]
          split
          next here => rw [right.mpr restorable, here]
          next other =>
            refine same j inside fun m mem => ?_
            rcases List.mem_cons.mp mem with rfl | behind
            · exact other
            · exact apart m behind
      · simp only [restorable, false_and, iff_false]
        intro done
        have kept := setFrom_other masked.tail done fun other mem => masked.lsb_apart mem set
        rw [getLsbD_insertBit _ _ small, if_pos rfl] at kept
        exact restorable (right.mp kept.symm)
    · rw [if_neg fun both => low both.2]
      simp only [reduceCtorEq, false_iff, not_and]
      rintro (below | ⟨last, -⟩) <;> omega

theorem mem_masksLsb : j ∉ r.masksLsb ↔ ∀ mask ∈ r.masks, j ≠ ctz64 mask := by
  rw [r.masksLsb_perm.mem_iff, List.mem_map]
  exact ⟨fun absent mask mem same => absent ⟨mask, mem, same.symm⟩,
    fun apart ⟨mask, mem, same⟩ => apart mask mem same.symm⟩

theorem removed_bit (masked : Masked r.masks) (apart : j ∉ r.masksLsb) (a : BitVec 64) :
    (removeFrom 0 r.masksLsb a).getLsbD (j - rank r.masksLsb j) = a.getLsbD j :=
  getLsbD_removeFrom (masksLsb_sorted masked)
    (fun p mem => ⟨Nat.zero_le p, masksLsb_bounds masked p mem⟩) apart

/-- An address of the range is made again from what is left of it exactly if its masks are
restorable; in any case no two addresses of the range are mixed up. -/
theorem roundTrip_iff (interleaved : r.interleaved = true) (masked : Masked r.masks) :
    (∀ a, r.contains a = some true →
      (r.addIntlvBits (r.removeIntlvBits a) = some a ↔ ∀ mask ∈ r.masks, Restorable a mask)) ∧
    ∀ a b, r.contains a = some true → r.contains b = some true →
      r.removeIntlvBits a = r.removeIntlvBits b → a = b := by
  simp only [removeIntlvBits, addIntlvBits, interleaved, if_true]
  constructor
  · intro _ within
    obtain ⟨_, parity⟩ := parity_of_contains within
    refine setFrom_iff masked (by omega) (by simpa using parity) fun j inside apart => ?_
    have apart := mem_masksLsb.mpr apart
    rw [getLsbD_addFrom (masksLsb_sorted masked) (masksLsb_bounds masked) inside apart,
      removed_bit masked apart]
  · intro a b within within' same
    have outer (j : Nat) (apart : j ∉ r.masksLsb) : a.getLsbD j = b.getLsbD j := by
      rw [← removed_bit masked apart, same, removed_bit masked apart]
    apply BitVec.eq_of_getLsbD_eq
    intro j inside
    by_cases apart : j ∉ r.masksLsb
    · exact outer j apart
    · obtain ⟨mask, mem, rfl⟩ := List.mem_map.mp (r.masksLsb_perm.mem_iff.mp (not_not.mp apart))
      -- the parities agree, and so do all other bits of the mask
      obtain ⟨i, here⟩ := List.mem_iff_getElem?.mp mem
      have parity := (parity_of_contains within).2 i mask here
      rw [← (parity_of_contains within').2 i mask here, odd_mask (masked.nonzero mask mem),
        odd_mask (masked.nonzero mask mem)] at parity
      rw [and_upper_congr fun j _ set other =>
        outer j (mem_masksLsb.mpr (masked.upper_apart mem set other))] at parity
      simpa using parity

/-- Four channels. -/
def channels : IntlvRange := ⟨0, 0x1000, [0x140, 0x80], 1⟩

theorem channels_masked : Masked channels.masks := ⟨by simp [channels], by simp [channels]⟩

theorem roundTrip_channels : channels.contains 0x40 = some true ∧
    channels.addIntlvBits (channels.removeIntlvBits 0x40) = some 0x40 :=
  ⟨by decide +kernel, ((roundTrip_iff rfl channels_masked).1 0x40 (by decide +kernel)).mpr
    (List.forall_mem_cons.mpr ⟨.inl (by decide +kernel),
      List.forall_mem_singleton.mpr (.inl (by decide +kernel))⟩)⟩

/-- A mask with the bits 31 and 32. -/
def highChannels : IntlvRange := ⟨0, 0x1000000000, [0x180000000], 0⟩

/-- Bit 32 is not counted when bit 31 is set again. -/
theorem roundTrip_clears_bit : Masked highChannels.masks ∧
    highChannels.contains 0x180000000 = some true ∧
    highChannels.addIntlvBits (highChannels.removeIntlvBits 0x180000000) = some 0x100000000 :=
  ⟨⟨by simp [highChannels], by simp [highChannels]⟩, by decide +kernel, by decide +kernel⟩

/-! ### Subsets -/

/-- The lowest bit of any mask. -/
def lowestBit (r : IntlvRange) : Nat := ctz64 (r.masks.foldl (· ||| ·) 0)

section Subset

variable (some_ : r.masks ≠ []) (masked : Masked r.masks)

theorem getLsbD_combined {w : Nat} (part : BitVec 64 → BitVec w)
    (masks : List (BitVec 64)) (j : Nat) :
    (masks.foldl (fun sum mask => sum ||| part mask) 0).getLsbD j =
      masks.any fun mask => (part mask).getLsbD j := by
  have loop (sum : BitVec w) : (masks.foldl (fun sum mask => sum ||| part mask) sum).getLsbD j =
      (sum.getLsbD j || masks.any fun mask => (part mask).getLsbD j) := by
    induction masks generalizing sum with
    | nil => simp
    | cons _ _ ih => rw [List.foldl_cons, ih, BitVec.getLsbD_or, List.any_cons, Bool.or_assoc]
  rw [loop]
  simp

include some_ masked

theorem lowestBit_spec : r.lowestBit < 64 ∧
    (r.masks.any fun mask => mask.getLsbD r.lowestBit) = true ∧
      ∀ j < r.lowestBit, ∀ mask ∈ r.masks, mask.getLsbD j = false := by
  have bit := getLsbD_combined id r.masks
  have nonzero : r.masks.foldl (· ||| ·) 0 ≠ 0 := by
    intro zero
    obtain ⟨mask, mem⟩ := List.exists_mem_of_ne_nil _ some_
    have set := (ctz64_spec (masked.nonzero mask mem)).2.1
    have some_ := (bit (ctz64 mask)).trans (List.any_eq_true.mpr ⟨mask, mem, set⟩)
    have none : (r.masks.foldl (fun sum mask => sum ||| id mask) 0).getLsbD (ctz64 mask) = false :=
      (congrArg (BitVec.getLsbD · _) zero).trans BitVec.getLsbD_zero
    exact Bool.false_ne_true (none.symm.trans some_)
  obtain ⟨small, set, least⟩ := ctz64_spec nonzero
  refine ⟨small, (bit _).symm.trans set, fun j below mask mem => ?_⟩
  have clear := List.any_eq_false.mp ((bit j).symm.trans (least j below)) mask mem
  simpa using clear

/-- The `int` with the masks has a bit exactly if the lowest bit is one of the low 32. -/
theorem granularity_eq :
    r.granularity = if r.lowestBit < 32 then some ((1 : BitVec 64) <<< r.lowestBit) else none := by
  obtain ⟨small, set, least⟩ := lowestBit_spec some_ masked
  have interleaved : r.interleaved = true := by simpa [interleaved, List.length_pos_iff] using some_
  have bit := getLsbD_combined (BitVec.setWidth 32) r.masks
  have clear (j : Nat) (below : j < r.lowestBit) :
      (r.masks.foldl (fun sum mask => sum ||| mask.setWidth 32) (0 : BitVec 32)).getLsbD j =
        false := by
    rw [bit, List.any_eq_false]
    intro mask mem
    simp [least j below mask mem]
  simp only [granularity, interleaved, if_true]
  by_cases low : r.lowestBit < 32
  · have lowest : ctz64 ((r.masks.foldl (fun sum mask => sum ||| mask.setWidth 32)
        (0 : BitVec 32)).signExtend 64) = r.lowestBit := by
      apply ctz64_eq small
      · rw [BitVec.getLsbD_signExtend, decide_eq_true small, if_pos low, bit]
        simpa [low] using set
      · intro j below
        rw [BitVec.getLsbD_signExtend, if_pos (by omega), clear j below, Bool.and_false]
    rw [lowest, if_pos small, if_pos low]
  · have none : r.masks.foldl (fun sum mask => sum ||| mask.setWidth 32) (0 : BitVec 32) = 0 :=
      BitVec.eq_of_getLsbD_eq fun j inside => (clear j (by omega)).trans BitVec.getLsbD_zero.symm
    rw [none, if_neg low]
    rfl

/-- Addresses in one block have the same parities. -/
theorem contains_congr (block : a.toNat / 2 ^ r.lowestBit = b.toNat / 2 ^ r.lowestBit)
    (lower : r.start ≤ b) (upper : b < r.stop)
    (within : r.contains a = some true) : r.contains b = some true := by
  have high (j : Nat) (above : r.lowestBit ≤ j) : a.getLsbD j = b.getLsbD j := by
    have shifted : a >>> r.lowestBit = b >>> r.lowestBit := by
      apply BitVec.eq_of_toNat_eq
      rw [BitVec.toNat_ushiftRight, BitVec.toNat_ushiftRight, Nat.shiftRight_eq_div_pow,
        Nat.shiftRight_eq_div_pow, block]
    have bit := congrArg (BitVec.getLsbD · (j - r.lowestBit)) shifted
    simpa [Nat.add_sub_cancel' above] using bit
  have same (mask : BitVec 64) (mem : mask ∈ r.masks) : popCount (a &&& mask) =
    popCount (b &&& mask) := by
    apply popCount_congr
    intro j _
    rw [BitVec.getLsbD_and, BitVec.getLsbD_and]
    by_cases above : r.lowestBit ≤ j
    · rw [high j above]
    · rw [(lowestBit_spec some_ masked).2.2 j (by omega) mask mem, Bool.and_false, Bool.and_false]
  rw [contains] at within ⊢
  rw [if_pos ⟨lower, upper⟩, ← sel_congr same]
  split at within
  next => exact within
  next => cases within

omit some_ masked in
/-- Between two addresses at most a block apart, every one shares the block of an end. -/
theorem same_block {s e x size : Nat} (positive : 0 < size) (lower : s ≤ x) (upper : x ≤ e)
    (near : e < s + size) : s / size = x / size ∨ e / size = x / size := by
  have first := Nat.div_le_div_right (c := size) lower
  have second := Nat.div_le_div_right (c := size) upper
  have third := Nat.div_le_div_right (c := size) (Nat.le_of_lt near)
  rw [Nat.add_div_right s positive] at third
  omega

theorem isSubset_eq_true {range : IntlvRange} (plain : range.masks = [])
    (nonempty : range.start < range.stop) : range.isSubset r = some true ↔
      r.contains range.start = some true ∧
      r.contains (range.stop - 1) = some true ∧ r.lowestBit < 32 ∧
      range.stop.toNat - range.start.toNat ≤ 2 ^ r.lowestBit := by
  have interleaved : r.interleaved = true := by simpa [interleaved, List.length_pos_iff] using some_
  have plain' : range.interleaved = false := by simp [IntlvRange.interleaved, plain]
  have size : range.size.toNat = range.stop.toNat - range.start.toNat := by
    rw [IntlvRange.size, plain, List.length_nil, BitVec.ushiftRight_zero,
      BitVec.toNat_sub_of_le (BitVec.le_of_lt nonempty)]
  have power (low : r.lowestBit < 32) : ((1 : BitVec 64) <<< r.lowestBit).toNat =
    2 ^ r.lowestBit := by
    have : (1 : BitVec 64) <<< r.lowestBit = BitVec.twoPow 64 r.lowestBit := rfl
    rw [this, BitVec.toNat_twoPow_of_lt (by omega)]
  simp only [isSubset, plain', interleaved, granularity_eq some_ masked, if_true,
    Bool.false_eq_true,
    if_false]
  rcases r.contains range.start with _ | _ | _ <;> try simp
  rcases r.contains (range.stop - 1) with _ | _ | _ <;> try simp
  by_cases low : r.lowestBit < 32
  · have bound : range.size ≤ (1 : BitVec 64) <<< r.lowestBit ↔
        range.stop.toNat - range.start.toNat ≤ 2 ^ r.lowestBit := by
      rw [BitVec.le_def, size, power low]
    simp only [low, if_true, Option.bind_some, Option.some.injEq, decide_eq_true_eq, true_and]
    exact bound.trans Nat.sub_le_iff_le_add
  · simp [low]

end Subset

/-- The test never accepts too much. It accepts a range within one block exactly if some
mask has one of the low 32 bits. -/
theorem subsetTest_iff {range : IntlvRange} (plain : range.masks = [])
    (nonempty : range.start < range.stop)
    (some_ : r.masks ≠ []) (masked : Masked r.masks) : (range.isSubset r = some true →
      ∀ a, range.start ≤ a → a < range.stop → r.contains a = some true) ∧
    ((∀ a, range.start ≤ a → a < range.stop → r.contains a = some true) →
      (∃ block, block * 2 ^ r.lowestBit ≤ range.start.toNat ∧
        range.stop.toNat ≤ (block + 1) * 2 ^ r.lowestBit) →
      (range.isSubset r = some true ↔ r.lowestBit < 32)) := by
  rw [isSubset_eq_true some_ masked plain nonempty]
  have order := BitVec.lt_def.mp nonempty
  have last : (range.stop - 1).toNat = range.stop.toNat - 1 := by
    have one : (1 : BitVec 64) ≤ range.stop :=
      BitVec.le_def.mpr (show 1 ≤ range.stop.toNat by omega)
    rw [BitVec.toNat_sub_of_le one]
    rfl
  constructor
  · rintro ⟨first, second, -, small⟩ a lower upper
    have lower' := BitVec.le_def.mp lower
    have upper' := BitVec.lt_def.mp upper
    have low : r.start ≤ a := BitVec.le_trans (range_of_contains first).1 lower
    have high : a < r.stop := by
      have := BitVec.lt_def.mp (range_of_contains second).2
      exact BitVec.lt_def.mpr (by omega)
    rcases same_block (Nat.two_pow_pos r.lowestBit) lower'
      (show a.toNat ≤ range.stop.toNat - 1 by omega)
      (by omega) with block | block
    · exact contains_congr some_ masked block low high first
    · exact contains_congr some_ masked (last ▸ block) low high second
  · rintro all ⟨block, lower, upper⟩
    rw [Nat.succ_mul] at upper
    have first := all range.start (BitVec.le_refl _) nonempty
    have second := all (range.stop - 1) (BitVec.le_def.mpr (by omega))
      (BitVec.lt_def.mpr (by omega))
    simp only [first, second, true_and, and_iff_left_iff_imp]
    omega

/-- The first block of a channel. -/
def firstBlock : IntlvRange := ⟨0x40, 0x80, [], 0⟩

theorem isSubset_firstBlock :
    firstBlock.isSubset channels = some true ∧ channels.contains 0x50 = some true :=
  have accepted : firstBlock.isSubset channels = some true := by decide +kernel
  ⟨accepted, (subsetTest_iff (rfl : firstBlock.masks = []) (by decide) (List.cons_ne_nil _ _)
    channels_masked).1 accepted 0x50 (by decide) (by decide)⟩

/-- A mask with bit 32 alone. -/
def farChannels : IntlvRange := ⟨0, 0x1000000000, [0x100000000], 0⟩

/-- The range lies in one block, and the test shifts by 64 places. -/
theorem isSubset_undefined :
    (∀ a : BitVec 64, 0 ≤ a → a < 0x1000 → farChannels.contains a = some true) ∧
    farChannels.lowestBit = 32 ∧ IntlvRange.isSubset ⟨0, 0x1000, [], 0⟩ farChannels = none := by
  have lowest : farChannels.lowestBit = 32 := by decide +kernel
  refine ⟨fun a lower upper => ?_, lowest, by decide +kernel⟩
  have small : a.toNat < 0x1000 := BitVec.lt_def.mp upper
  have block : (0 : BitVec 64).toNat / 2 ^ farChannels.lowestBit =
    a.toNat / 2 ^ farChannels.lowestBit := by
    rw [lowest, Nat.div_eq_of_lt (show a.toNat < 2 ^ 32 by omega)]
    rfl
  have bound : a < farChannels.stop := BitVec.lt_def.mpr (show a.toNat < 0x1000000000 by omega)
  exact contains_congr (List.cons_ne_nil _ _) ⟨by simp [farChannels], by simp [farChannels]⟩ block
    lower bound (by decide +kernel)

end IntlvRange
end RasCache.Base
