import Mathlib.Data.List.Basic
import RasCache.Foundation.WordFields

/-!
# The fragments of a split access

`SplitDataRequest::initiateTranslation` (`cpu/o3/lsq_impl.hh`) with its machine
words: what it passes to `addRequest` for an access that crosses a line. Addresses
have 64 bits, sizes 32. The loop over whole lines stops only when it meets the
last line, so it is given fuel, and an iterator behind the end of the byte-enable
vector is `none`. The fragments tile the access: each begins where the one before
it ends.
-/
namespace RasCache.Cpu.SplitAccess

open WordFields

def transferNeedsBurst (addr size blockSize : Nat) : Bool :=
  decide (addr % blockSize + size > blockSize)

/-- The arguments of one call of `addRequest`. -/
structure Fragment where
  addr : BitVec 64
  size : BitVec 32
  byteEnable : List Bool
deriving Repr, DecidableEq

def addrBlockAlign (addr blockSize : BitVec 64) : BitVec 64 := addr &&& ~~~(blockSize - 1)

/-- `std::vector<bool>(it_start, it_end)`. -/
def slice (byteEnable : List Bool) (first last : Nat) : Option (List Bool) :=
  if first ≤ last ∧ last ≤ byteEnable.length then some ((byteEnable.take last).drop first)
  else none

section Loop

variable (cacheLineSize : BitVec 32) (byteEnable : List Bool) (finalAddr : BitVec 64)

/-- The loop over whole lines, with the address and the size it ends at. -/
def wholeLines : Nat → BitVec 64 → BitVec 32 → Option (List Fragment × BitVec 64 × BitVec 32)
  | 0, baseAddr, sizeSoFar =>
    if baseAddr = finalAddr then some ([], baseAddr, sizeSoFar) else none
  | fuel + 1, baseAddr, sizeSoFar =>
    if baseAddr = finalAddr then some ([], baseAddr, sizeSoFar)
    else do
      let enabled ← slice byteEnable sizeSoFar.toNat (sizeSoFar.toNat + cacheLineSize.toNat)
      let (rest, lastAddr, lastSize) ←
        wholeLines fuel (baseAddr + cacheLineSize.setWidth 64) (sizeSoFar + cacheLineSize)
      some (⟨baseAddr, cacheLineSize, enabled⟩ :: rest, lastAddr, lastSize)

end Loop

def initiateTranslation (cacheLineSize : BitVec 32) (fuel : Nat) (addr : BitVec 64)
    (size : BitVec 32) (byteEnable : List Bool) : Option (List Fragment) := do
  let line := cacheLineSize.setWidth 64
  let nextAddr := addrBlockAlign (addr + line) line
  let finalAddr := addrBlockAlign (addr + size.setWidth 64) line
  -- `setByteEnable` of the main request
  if byteEnable.length ≠ size.toNat then none
  else
    let enabled ← slice byteEnable 0 (nextAddr - addr).toNat
    let first : Fragment := ⟨addr, (nextAddr - addr).setWidth 32, enabled⟩
    let (lines, baseAddr, sizeSoFar) ←
      wholeLines cacheLineSize byteEnable finalAddr fuel nextAddr first.size
    if sizeSoFar < size then
      let enabled ← slice byteEnable sizeSoFar.toNat byteEnable.length
      some (first :: lines ++ [⟨baseAddr, size - sizeSoFar, enabled⟩])
    else some (first :: lines)

/-! ### Tilings -/

/-- The fragments lie one behind the other from the address on and share out the
byte-enable vector. -/
inductive Tiles : Nat → List Bool → List Fragment → Prop
  | nil (a : Nat) : Tiles a [] []
  | cons (f : Fragment) (byteEnable : List Bool) (rest : List Fragment)
      (sized : f.size.toNat = f.byteEnable.length) (positive : 0 < f.size.toNat)
      (behind : Tiles (f.addr.toNat + f.size.toNat) byteEnable rest) :
    Tiles f.addr.toNat (f.byteEnable ++ byteEnable) (f :: rest)

/-- The fragment lies in one line. -/
def Fragment.InLine (lineSize : Nat) (f : Fragment) : Prop :=
  f.addr.toNat / lineSize = (f.addr.toNat + f.size.toNat - 1) / lineSize

namespace Tiles

variable {a : Nat} {byteEnable more : List Bool} {fragments others : List Fragment}

theorem single (f : Fragment) (sized : f.size.toNat = f.byteEnable.length)
    (positive : 0 < f.size.toNat) : Tiles f.addr.toNat f.byteEnable [f] := by
  have one := Tiles.cons f [] [] sized positive (.nil _)
  rwa [List.append_nil] at one

variable (tiles : Tiles a byteEnable fragments)
include tiles

theorem append (behind : Tiles (a + byteEnable.length) more others) :
    Tiles a (byteEnable ++ more) (fragments ++ others) := by
  induction tiles with
  | nil => simpa using behind
  | cons f _ _ sized positive _ ih =>
    rw [List.append_assoc, List.cons_append]
    refine .cons f _ _ sized positive (ih ?_)
    rwa [List.length_append, ← sized, ← Nat.add_assoc] at behind

theorem positive : ∀ f ∈ fragments, 0 < f.size.toNat := by
  induction tiles with
  | nil => simp
  | cons _ _ _ _ positive _ ih => exact List.forall_mem_cons.mpr ⟨positive, ih⟩

theorem sized : ∀ f ∈ fragments, f.byteEnable.length = f.size.toNat := by
  induction tiles with
  | nil => simp
  | cons _ _ _ sized _ _ ih => exact List.forall_mem_cons.mpr ⟨sized.symm, ih⟩

theorem bounds : ∀ f ∈ fragments,
    a ≤ f.addr.toNat ∧ f.addr.toNat + f.size.toNat ≤ a + byteEnable.length := by
  induction tiles with
  | nil => simp
  | cons _ _ _ sized _ _ ih =>
    rw [List.length_append, ← sized]
    refine List.forall_mem_cons.mpr ⟨⟨Nat.le_refl _, by omega⟩, fun g mem => ?_⟩
    have inside := ih g mem
    omega

theorem ordered : fragments.Pairwise fun f g => f.addr.toNat + f.size.toNat ≤ g.addr.toNat := by
  induction tiles with
  | nil => exact .nil
  | cons _ _ _ _ _ behind ih =>
    exact List.pairwise_cons.mpr ⟨fun g mem => (behind.bounds g mem).1, ih⟩

theorem covers (byte : Nat) :
    (∃ f ∈ fragments, f.addr.toNat ≤ byte ∧ byte < f.addr.toNat + f.size.toNat) ↔
      a ≤ byte ∧ byte < a + byteEnable.length := by
  induction tiles with
  | nil => simp
  | cons _ _ _ sized _ _ ih =>
    rw [List.length_append, ← sized]
    simp only [List.mem_cons, exists_eq_or_imp, ih]
    omega

theorem flatten : (fragments.map Fragment.byteEnable).flatten = byteEnable := by
  induction tiles with
  | nil => rfl
  | cons _ _ _ _ _ _ ih => rw [List.map_cons, List.flatten_cons, ih]

theorem enables : ∀ f ∈ fragments,
    f.byteEnable = (byteEnable.drop (f.addr.toNat - a)).take f.size.toNat := by
  induction tiles with
  | nil => simp
  | cons f _ _ sized _ behind ih =>
    refine List.forall_mem_cons.mpr ⟨by simp [sized], fun g mem => ?_⟩
    have later := (behind.bounds g mem).1
    have offset : g.addr.toNat - f.addr.toNat =
        f.byteEnable.length + (g.addr.toNat - (f.addr.toNat + f.size.toNat)) := by omega
    rw [offset, List.drop_length_add_append]
    exact ih g mem

end Tiles

/-! ### The loop -/

theorem Fragment.inLine_of {f : Fragment} (lineSize n : Nat) (positive : 0 < f.size.toNat)
    (starts : n * lineSize ≤ f.addr.toNat)
    (ends : f.addr.toNat + f.size.toNat ≤ (n + 1) * lineSize) : f.InLine lineSize := by
  have first : f.addr.toNat < (n + 1) * lineSize := Nat.lt_of_lt_of_le (by omega) ends
  have last : f.addr.toNat + f.size.toNat - 1 < (n + 1) * lineSize :=
    Nat.lt_of_lt_of_le (by omega) ends
  rw [InLine, Nat.div_eq_of_lt_le starts first,
    Nat.div_eq_of_lt_le (Nat.le_trans starts (by omega)) last]

theorem slice_eq (byteEnable : List Bool) (first last : Nat) (order : first ≤ last)
    (inside : last ≤ byteEnable.length) :
    slice byteEnable first last = some ((byteEnable.drop first).take (last - first)) := by
  rw [slice, if_pos ⟨order, inside⟩, List.drop_take]

theorem add_ofNat_setWidth {cacheLineSize : BitVec 32} (a : Nat) {lineSize : Nat}
    (isLine : cacheLineSize.toNat = lineSize) :
    BitVec.ofNat 64 a + cacheLineSize.setWidth 64 = BitVec.ofNat 64 (a + lineSize) := by
  apply BitVec.eq_of_toNat_eq
  have small := cacheLineSize.isLt
  simp only [BitVec.toNat_add, BitVec.toNat_ofNat, BitVec.toNat_setWidth, isLine]
  omega

/-- So many whole lines from the address on, with their byte enables. -/
def lineFragments (cacheLineSize : BitVec 32) (byteEnable : List Bool) :
    Nat → Nat → Nat → List Fragment
  | 0, _, _ => []
  | lines + 1, a, sizeSoFar =>
    ⟨BitVec.ofNat 64 a, cacheLineSize, (byteEnable.drop sizeSoFar).take cacheLineSize.toNat⟩ ::
      lineFragments cacheLineSize byteEnable lines (a + cacheLineSize.toNat)
        (sizeSoFar + cacheLineSize.toNat)

section Lines

variable {cacheLineSize : BitVec 32} {lineSize : Nat} (byteEnable : List Bool)

theorem succ_lines (lines lineSize : Nat) :
    (lines + 1) * lineSize = lineSize + lines * lineSize := by
  rw [Nat.succ_mul, Nat.add_comm]

section

variable (isLine : cacheLineSize.toNat = lineSize) (positive : 0 < lineSize)
include isLine positive

/-- From a line on, the loop passes whole lines to `addRequest` until it meets the
last one. -/
theorem wholeLines_eq (short : byteEnable.length < 2 ^ 32) {lines : Nat} (fuel a sizeSoFar : Nat)
    (top : a + lines * lineSize ≤ 2 ^ 64)
    (inside : sizeSoFar + lines * lineSize ≤ byteEnable.length) (enough : lines ≤ fuel) :
    wholeLines cacheLineSize byteEnable (BitVec.ofNat 64 (a + lines * lineSize)) fuel
      (BitVec.ofNat 64 a) (BitVec.ofNat 32 sizeSoFar) =
      some (lineFragments cacheLineSize byteEnable lines a sizeSoFar,
        BitVec.ofNat 64 (a + lines * lineSize),
        BitVec.ofNat 32 (sizeSoFar + lines * lineSize)) := by
  induction lines generalizing fuel a sizeSoFar with
  | zero => cases fuel <;> simp [wholeLines, lineFragments]
  | succ lines ih =>
    obtain ⟨fuel, rfl⟩ := Nat.exists_eq_add_of_le' enough
    rw [succ_lines] at top inside ⊢
    have later := ih (fuel + lines) (a + lineSize) (sizeSoFar + lineSize) (by omega) (by omega)
      (Nat.le_add_left _ _)
    generalize lines * lineSize = rest at *
    -- the last line is less than the whole address space away
    have further : ¬ BitVec.ofNat 64 a = BitVec.ofNat 64 (a + (lineSize + rest)) := by
      intro same
      have same := congrArg BitVec.toNat same
      simp only [BitVec.toNat_ofNat] at same
      omega
    have soFar : (BitVec.ofNat 32 sizeSoFar).toNat = sizeSoFar := by
      rw [BitVec.toNat_ofNat, Nat.mod_eq_of_lt (by omega)]
    have nextSize : BitVec.ofNat 32 sizeSoFar + cacheLineSize =
        BitVec.ofNat 32 (sizeSoFar + lineSize) := by
      apply BitVec.eq_of_toNat_eq
      rw [BitVec.toNat_add, BitVec.toNat_ofNat, BitVec.toNat_ofNat, isLine, Nat.mod_add_mod]
    rw [Nat.add_succ, wholeLines, if_neg further, soFar, isLine,
      slice_eq _ _ _ (Nat.le_add_right _ _) (by omega), add_ofNat_setWidth _ isLine, nextSize,
      ← Nat.add_assoc, later]
    simp [lineFragments, isLine, Nat.add_assoc]

theorem lineFragments_tiles (lines a sizeSoFar : Nat) (top : a + lines * lineSize ≤ 2 ^ 64)
    (inside : sizeSoFar + lines * lineSize ≤ byteEnable.length) :
    Tiles a ((byteEnable.drop sizeSoFar).take (lines * lineSize))
      (lineFragments cacheLineSize byteEnable lines a sizeSoFar) := by
  induction lines generalizing a sizeSoFar with
  | zero => simpa [lineFragments] using Tiles.nil a
  | succ _ ih =>
    rw [succ_lines] at top inside ⊢
    have later := ih (a + lineSize) (sizeSoFar + lineSize) (by omega) (by omega)
    have base : (BitVec.ofNat 64 a).toNat = a := by
      rw [BitVec.toNat_ofNat, Nat.mod_eq_of_lt (by omega)]
    rw [lineFragments, isLine, List.take_add, List.drop_drop]
    nth_rewrite 1 [← base]
    refine .cons ⟨BitVec.ofNat 64 a, cacheLineSize, _⟩ _ _ ?_ ?_ ?_
    · simp only [isLine, List.length_take, List.length_drop]
      omega
    · simpa only [isLine] using positive
    · simpa only [base, isLine] using later

theorem lineFragments_inLine (lines a sizeSoFar : Nat) (aligned : lineSize ∣ a)
    (top : a + lines * lineSize ≤ 2 ^ 64) :
    ∀ f ∈ lineFragments cacheLineSize byteEnable lines a sizeSoFar, f.InLine lineSize := by
  induction lines generalizing a sizeSoFar with
  | zero => simp [lineFragments]
  | succ _ ih =>
    rw [succ_lines] at top
    rw [lineFragments, isLine]
    refine List.forall_mem_cons.mpr ⟨?_, ?_⟩
    · have base : (BitVec.ofNat 64 a).toNat = a := by
        rw [BitVec.toNat_ofNat, Nat.mod_eq_of_lt (by omega)]
      obtain ⟨n, isMultiple⟩ := aligned
      rw [Nat.mul_comm] at isMultiple
      refine Fragment.inLine_of lineSize n ?_ ?_ ?_ <;>
        simp only [base, isLine, Nat.succ_mul, ← isMultiple]
      · exact positive
      · exact Nat.le_refl _
      · exact Nat.le_refl _
    · exact ih _ _ ((Nat.dvd_add_right aligned).mpr (Nat.dvd_refl _)) (by omega)

end

end Lines

/-! ### The three pieces -/

theorem addrBlockAlign_eq {cacheLineSize : BitVec 32} {k : Nat}
    (isLine : cacheLineSize.toNat = 2 ^ k) (addr : BitVec 64) :
    addrBlockAlign addr (cacheLineSize.setWidth 64) = alignDown k addr := by
  have mask : cacheLineSize.setWidth 64 - 1 = BitVec.ofNat 64 (2 ^ k - 1) := by
    apply BitVec.eq_of_toNat_eq
    have small := cacheLineSize.isLt
    have positive := Nat.two_pow_pos k
    simp only [BitVec.ofNat_eq_ofNat, BitVec.toNat_sub, BitVec.toNat_ofNat, BitVec.toNat_setWidth]
    omega
  rw [addrBlockAlign, mask, alignDown]

/-- Between the line behind `addr` and the line of the end lies a number of whole lines. -/
theorem whole_lines {addr size line : Nat} (positive : 0 < line)
    (crosses : addr % line + size > line) :
    ∃ lines, (addr + size) / line = addr / line + 1 + lines ∧ lines ≤ size := by
  have parts := Nat.div_add_mod' addr line
  have start := Nat.mod_lt addr positive
  have reaches : addr / line + 1 ≤ (addr + size) / line := by
    rw [Nat.le_div_iff_mul_le positive, Nat.succ_mul]
    generalize addr / line * line = first at parts ⊢
    omega
  have short : (addr + size) / line < addr / line + 1 + size := by
    rw [Nat.div_lt_iff_lt_mul positive, Nat.add_mul, Nat.succ_mul]
    have bytes := Nat.le_mul_of_pos_right size positive
    generalize addr / line * line = first at parts ⊢
    generalize size * line = total at bytes ⊢
    omega
  obtain ⟨lines, last⟩ := Nat.exists_eq_add_of_le reaches
  exact ⟨lines, last, by omega⟩

/-- The lines of an access that crosses a line and does not wrap around: `next` is
the line behind the first byte, and `lines` whole lines follow it. -/
structure Layout (k addr size next lines rest : Nat) : Prop where
  first : next = (addr / 2 ^ k + 1) * 2 ^ k
  behind : addr < next
  inside : next < addr + size
  reach : next ≤ addr + 2 ^ k
  ends : addr + size = next + lines * 2 ^ k + rest
  short : rest < 2 ^ k
  enough : lines ≤ size

theorem layout (k addr size : Nat) (crosses : addr % 2 ^ k + size > 2 ^ k) :
    ∃ next lines rest, Layout k addr size next lines rest := by
  have positive := Nat.two_pow_pos k
  obtain ⟨lines, last, enough⟩ := whole_lines positive crosses
  refine ⟨(addr / 2 ^ k + 1) * 2 ^ k, lines, (addr + size) % 2 ^ k, rfl, ?_, ?_, ?_, ?_, ?_, enough⟩
  · have split := Nat.div_add_mod' addr (2 ^ k)
    have start := Nat.mod_lt addr positive
    rw [Nat.succ_mul]
    omega
  · have split := Nat.div_add_mod' addr (2 ^ k)
    rw [Nat.succ_mul]
    omega
  · have split := Nat.div_add_mod' addr (2 ^ k)
    rw [Nat.succ_mul]
    omega
  · have split := Nat.div_add_mod' (addr + size) (2 ^ k)
    rw [last, Nat.add_mul] at split
    omega
  · exact Nat.mod_lt _ positive

theorem Layout.lastLine {k addr size next lines rest : Nat}
    (layout : Layout k addr size next lines rest) :
    (addr + size) / 2 ^ k * 2 ^ k = next + lines * 2 ^ k := by
  have lines : next + lines * 2 ^ k = (addr / 2 ^ k + 1 + lines) * 2 ^ k := by
    rw [layout.first, Nat.add_mul (_ + 1)]
  rw [layout.ends, lines, Nat.add_comm, Nat.add_mul_div_right _ _ (Nat.two_pow_pos k),
    Nat.div_eq_of_lt layout.short, Nat.zero_add]

section Pieces

variable {cacheLineSize : BitVec 32} {k : Nat} {addr : BitVec 64} {size : BitVec 32}
  {byteEnable : List Bool} {next lines rest : Nat}

/-- The piece before the first whole line. -/
def firstPiece (addr : BitVec 64) (byteEnable : List Bool) (next : Nat) : Fragment :=
  ⟨addr, BitVec.ofNat 32 (next - addr.toNat), byteEnable.take (next - addr.toNat)⟩

/-- The piece behind the whole lines, if it has a byte. -/
def lastPiece (byteEnable : List Bool) (finalAddr soFar rest : Nat) : List Fragment :=
  if rest = 0 then []
  else [⟨BitVec.ofNat 64 finalAddr, BitVec.ofNat 32 rest, byteEnable.drop soFar⟩]

theorem ofNat_toNat_64 (addr : BitVec 64) : BitVec.ofNat 64 addr.toNat = addr := by
  rw [BitVec.ofNat_toNat, BitVec.setWidth_eq]

theorem shift_le (isLine : cacheLineSize.toNat = 2 ^ k) : k ≤ 64 := by
  have small := cacheLineSize.isLt
  rw [isLine] at small
  have := (Nat.pow_lt_pow_iff_right (Nat.lt_succ_self 1)).mp small
  omega

variable (layout : Layout k addr.toNat size.toNat next lines rest)
  (isLine : cacheLineSize.toNat = 2 ^ k) (noWrap : addr.toNat + size.toNat ≤ 2 ^ 64)
  (sized : byteEnable.length = size.toNat)

include layout isLine in
theorem Layout.nextAddr :
    addrBlockAlign (addr + cacheLineSize.setWidth 64) (cacheLineSize.setWidth 64) =
      BitVec.ofNat 64 next := by
  rw [addrBlockAlign_eq isLine, ← ofNat_toNat_64 addr, add_ofNat_setWidth _ isLine,
    alignDown_ofNat _ _ (shift_le isLine), Nat.add_div_right _ (Nat.two_pow_pos k), layout.first]

include layout isLine in
theorem Layout.finalAddr : addrBlockAlign (addr + size.setWidth 64) (cacheLineSize.setWidth 64) =
      BitVec.ofNat 64 (next + lines * 2 ^ k) := by
  rw [addrBlockAlign_eq isLine, ← ofNat_toNat_64 addr, add_ofNat_setWidth _ rfl,
    alignDown_ofNat _ _ (shift_le isLine), layout.lastLine]

include layout noWrap in
theorem Layout.firstSize : (BitVec.ofNat 64 next - addr).toNat = next - addr.toNat := by
  have inside := layout.inside
  have behind := layout.behind
  rw [BitVec.toNat_sub, BitVec.toNat_ofNat]
  omega

/-- The pieces of the access. -/
def pieces (cacheLineSize : BitVec 32) (addr : BitVec 64) (byteEnable : List Bool)
    (next lines rest : Nat) : List Fragment :=
  firstPiece addr byteEnable next ::
    lineFragments cacheLineSize byteEnable lines next (next - addr.toNat) ++
    lastPiece byteEnable (next + lines * cacheLineSize.toNat)
      (next - addr.toNat + lines * cacheLineSize.toNat) rest

include layout isLine noWrap sized in
/-- With fuel for each byte the function comes to its end. -/
theorem initiateTranslation_eq (fuel : Nat) (enough : size.toNat ≤ fuel) :
    initiateTranslation cacheLineSize fuel addr size byteEnable =
      some (pieces cacheLineSize addr byteEnable next lines rest) := by
  have small := size.isLt
  have behind := layout.behind
  have inside := layout.inside
  have ends := layout.ends
  have looped := wholeLines_eq byteEnable isLine (Nat.two_pow_pos k) (by omega)
    fuel next (next - addr.toNat) (by omega) (by omega) (Nat.le_trans layout.enough enough)
  have nextAddr := layout.nextAddr isLine
  have finalAddr := layout.finalAddr isLine
  have firstSize := layout.firstSize noWrap
  have firstWord : (BitVec.ofNat 64 next - addr).setWidth 32 =
      BitVec.ofNat 32 (next - addr.toNat) := by
    apply BitVec.eq_of_toNat_eq
    rw [BitVec.toNat_setWidth, firstSize, BitVec.toNat_ofNat]
  rw [pieces, isLine]
  generalize lineFragments cacheLineSize byteEnable lines next (next - addr.toNat) = wholes at *
  generalize lines * 2 ^ k = whole at *
  have soFar : (BitVec.ofNat 32 (next - addr.toNat + whole)).toNat =
      next - addr.toNat + whole := by
    rw [BitVec.toNat_ofNat, Nat.mod_eq_of_lt (by omega)]
  have left : size - BitVec.ofNat 32 (next - addr.toNat + whole) = BitVec.ofNat 32 rest := by
    apply BitVec.eq_of_toNat_eq
    rw [BitVec.toNat_sub, soFar, BitVec.toNat_ofNat]
    omega
  have head := slice_eq byteEnable 0 (next - addr.toNat) (Nat.zero_le _) (by omega)
  rw [List.drop_zero, Nat.sub_zero] at head
  have evaluated : initiateTranslation cacheLineSize fuel addr size byteEnable =
      if BitVec.ofNat 32 (next - addr.toNat + whole) < size then
        (slice byteEnable (next - addr.toNat + whole) byteEnable.length).bind fun enabled =>
          some (firstPiece addr byteEnable next :: wholes ++
            [⟨BitVec.ofNat 64 (next + whole), BitVec.ofNat 32 rest, enabled⟩])
      else some (firstPiece addr byteEnable next :: wholes) := by
    simp only [initiateTranslation, nextAddr, finalAddr, firstSize, firstWord, head, looped, soFar,
      left, sized, ne_eq, not_true_eq_false, if_false, Option.bind_eq_bind, Option.bind_some,
      firstPiece]
  rw [evaluated, lastPiece]
  by_cases ended : rest = 0
  · have full : ¬ BitVec.ofNat 32 (next - addr.toNat + whole) < size := by
      rw [BitVec.lt_def, soFar]
      omega
    rw [if_neg full, if_pos ended, List.append_nil]
  · have remains : BitVec.ofNat 32 (next - addr.toNat + whole) < size := by
      rw [BitVec.lt_def, soFar]
      omega
    rw [if_pos remains, if_neg ended, slice_eq _ _ _ (by omega) (Nat.le_refl _), Option.bind_some,
      List.take_of_length_le (by simp)]

include layout sized in
theorem firstPiece_tiles :
    Tiles addr.toNat (byteEnable.take (next - addr.toNat)) [firstPiece addr byteEnable next] ∧
      (firstPiece addr byteEnable next).InLine (2 ^ k) := by
  have small := size.isLt
  have behind := layout.behind
  have inside := layout.inside
  have nat : (firstPiece addr byteEnable next).size.toNat = next - addr.toNat := by
    rw [firstPiece, BitVec.toNat_ofNat, Nat.mod_eq_of_lt (by omega)]
  constructor
  · refine .single (firstPiece addr byteEnable next) ?_ (by omega)
    rw [nat, firstPiece, List.length_take]
    omega
  · refine Fragment.inLine_of _ (addr.toNat / 2 ^ k) (by omega) (Nat.div_mul_le_self _ _) ?_
    rw [← layout.first, nat]
    simp only [firstPiece]
    omega

include layout noWrap sized in
theorem lastPiece_tiles :
    Tiles (next + lines * 2 ^ k) (byteEnable.drop (next - addr.toNat + lines * 2 ^ k))
        (lastPiece byteEnable (next + lines * 2 ^ k) (next - addr.toNat + lines * 2 ^ k) rest) ∧
      ∀ f ∈ lastPiece byteEnable (next + lines * 2 ^ k) (next - addr.toNat + lines * 2 ^ k) rest,
        f.InLine (2 ^ k) := by
  have small := size.isLt
  have behind := layout.behind
  have ends := layout.ends
  have short := layout.short
  have line : next + lines * 2 ^ k = (addr.toNat / 2 ^ k + 1 + lines) * 2 ^ k := by
    rw [layout.first, Nat.add_mul (_ + 1)]
  unfold lastPiece
  by_cases ended : rest = 0
  · rw [if_pos ended, List.drop_eq_nil_of_le (by omega)]
    exact ⟨.nil _, by simp⟩
  · rw [if_neg ended]
    have here : (BitVec.ofNat 64 (next + lines * 2 ^ k)).toNat = next + lines * 2 ^ k := by
      rw [BitVec.toNat_ofNat, Nat.mod_eq_of_lt (by omega)]
    have nat : (BitVec.ofNat 32 rest).toNat = rest := by
      rw [BitVec.toNat_ofNat, Nat.mod_eq_of_lt (by omega)]
    constructor
    · nth_rewrite 1 [← here]
      refine .single ⟨_, _, _⟩ ?_ ?_
      · simp only [nat, List.length_drop]
        omega
      · simp only [nat]
        omega
    · simp only [List.mem_singleton, forall_eq]
      refine Fragment.inLine_of _ (addr.toNat / 2 ^ k + 1 + lines) ?_ ?_ ?_
      · simp only [nat]
        omega
      · simp only [here, ← line, Nat.le_refl]
      · simp only [here, nat, Nat.succ_mul, ← line]
        omega

include layout isLine noWrap sized in
theorem pieces_tile :
    Tiles addr.toNat byteEnable (pieces cacheLineSize addr byteEnable next lines rest) := by
  have behind := layout.behind
  have ends := layout.ends
  have wholeTiles := lineFragments_tiles byteEnable isLine (Nat.two_pow_pos k) lines
    next (next - addr.toNat) (by omega) (by omega)
  -- the vector is cut where the pieces of the access meet
  have cut : byteEnable = (byteEnable.take (next - addr.toNat) ++
      (byteEnable.drop (next - addr.toNat)).take (lines * 2 ^ k)) ++
      byteEnable.drop (next - addr.toNat + lines * 2 ^ k) := by
    rw [← List.take_add, List.take_append_drop]
  have firstLength : (byteEnable.take (next - addr.toNat)).length = next - addr.toNat := by
    rw [List.length_take]
    omega
  have frontLength : addr.toNat + (byteEnable.take (next - addr.toNat) ++
      (byteEnable.drop (next - addr.toNat)).take (lines * 2 ^ k)).length =
      next + lines * 2 ^ k := by
    rw [← List.take_add, List.length_take]
    omega
  have frontTiles := (firstPiece_tiles layout sized).1.append (by
    rwa [firstLength, Nat.add_sub_cancel' (Nat.le_of_lt behind)])
  have allTiles := frontTiles.append (by
    rw [frontLength]
    exact (lastPiece_tiles layout noWrap sized).1)
  rw [← cut] at allTiles
  rwa [pieces, isLine]

include layout isLine noWrap sized in
theorem pieces_inLine :
    ∀ f ∈ pieces cacheLineSize addr byteEnable next lines rest, f.InLine (2 ^ k) := by
  have ends := layout.ends
  have wholeInLine := lineFragments_inLine byteEnable isLine (Nat.two_pow_pos k)
    lines next (next - addr.toNat)
    ⟨addr.toNat / 2 ^ k + 1, by rw [layout.first, Nat.mul_comm]⟩ (by omega)
  rw [pieces, isLine]
  exact List.forall_mem_append.mpr ⟨List.forall_mem_cons.mpr
    ⟨(firstPiece_tiles layout sized).2, wholeInLine⟩, (lastPiece_tiles layout noWrap sized).2⟩

end Pieces

/-- An access that crosses a line and does not wrap around is passed to `addRequest`
in non-empty fragments of ascending addresses. Each lies in one line, together they
are the bytes of the access, and each has the byte enables of its own bytes. -/
theorem split_shares_access (cacheLineSize : BitVec 32)
    (powerOfTwo : ∃ k, cacheLineSize.toNat = 2 ^ k) (addr : BitVec 64) (size : BitVec 32)
    (byteEnable : List Bool) (sized : byteEnable.length = size.toNat)
    (noWrap : addr.toNat + size.toNat ≤ 2 ^ 64)
    (crosses : transferNeedsBurst addr.toNat size.toNat cacheLineSize.toNat = true) : ∃ fragments,
      (∀ fuel, size.toNat ≤ fuel →
        initiateTranslation cacheLineSize fuel addr size byteEnable = some fragments) ∧
      (∀ f ∈ fragments, 0 < f.size.toNat ∧ f.InLine cacheLineSize.toNat) ∧
      (fragments.Pairwise fun f g => f.addr.toNat + f.size.toNat ≤ g.addr.toNat) ∧
      (∀ byte, (∃ f ∈ fragments, f.addr.toNat ≤ byte ∧ byte < f.addr.toNat + f.size.toNat) ↔
        addr.toNat ≤ byte ∧ byte < addr.toNat + size.toNat) ∧
      (fragments.map Fragment.byteEnable).flatten = byteEnable ∧
      ∀ f ∈ fragments, f.byteEnable.length = f.size.toNat ∧
        f.byteEnable = (byteEnable.drop (f.addr.toNat - addr.toNat)).take f.size.toNat := by
  obtain ⟨k, isLine⟩ := powerOfTwo
  rw [isLine] at crosses ⊢
  obtain ⟨_, _, _, layout⟩ :=
    layout k addr.toNat size.toNat (by simpa [transferNeedsBurst] using crosses)
  have tiles := pieces_tile layout isLine noWrap sized
  have inLine := pieces_inLine layout isLine noWrap sized
  refine ⟨_, initiateTranslation_eq layout isLine noWrap sized, ?_, tiles.ordered, ?_,
    tiles.flatten, ?_⟩
  · exact fun f mem => ⟨tiles.positive f mem, inLine f mem⟩
  · rw [← sized]
    exact tiles.covers
  · exact fun f mem => ⟨tiles.sized f mem, tiles.enables f mem⟩

/-- An access up to the last byte of the address space: the last line is met when the
address has wrapped around. -/
theorem split_shares_access_atTop :
    ∃ fragments, initiateTranslation 64#32 70 (BitVec.ofNat 64 (2 ^ 64 - 70)) 70#32
        (List.replicate 70 true) = some fragments ∧
      (fragments.map Fragment.byteEnable).flatten = List.replicate 70 true := by
  obtain ⟨fragments, made, _, _, _, shared, _⟩ :=
    split_shares_access 64#32 ⟨6, rfl⟩ (BitVec.ofNat 64 (2 ^ 64 - 70)) 70#32
      (List.replicate 70 true) (by decide) (by decide) (by decide)
  exact ⟨fragments, made 70 (Nat.le_refl _), shared⟩

end RasCache.Cpu.SplitAccess
