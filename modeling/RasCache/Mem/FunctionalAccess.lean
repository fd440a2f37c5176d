import Mathlib.Algebra.Group.Nat.Defs
import Mathlib.Data.List.Induction
import RasCache.Foundation.Runs

/-!
# Functional accesses

Model of `Packet::trySatisfyFunctional` (`mem/packet.cc`): a functional access is
shown to one holder of data after the other (a block, a packet in a queue). A read
takes the bytes of every holder that overlaps it, the bytes it has got are tracked
in `bytesValid`, and it is satisfied once it has all of them; a write updates each
holder. Addresses have 64 bits. What a print request prints is left out.
-/
namespace RasCache.Mem.FunctionalAccess

/-- A range of addresses. `trySatisfyFunctional` takes its size as an `int`. -/
structure Span where
  addr : BitVec 64
  size : Nat
  nonempty : 0 < size
  short : size < 2 ^ 31
  inside : addr.toNat + size ≤ 2 ^ 64

namespace Span

/-- `addr + size - 1`. -/
def last (span : Span) : BitVec 64 := span.addr + BitVec.ofNat 64 span.size - 1

def Holds (span : Span) (a : Nat) : Prop := span.addr.toNat ≤ a ∧ a < span.addr.toNat + span.size

instance (span : Span) (a : Nat) : Decidable (span.Holds a) :=
  inferInstanceAs (Decidable (_ ∧ _))

/-- The ranges have an address in common. -/
def Overlaps (span other : Span) : Prop := ∃ a, span.Holds a ∧ other.Holds a

end Span

/-- The fields of the packet that a functional access reads. -/
structure Access extends Span where
  isRead : Bool := false
  isWrite : Bool := false
  isPrint : Bool := false
  isSecure : Bool := false

/-- The data of the packet and the bytes it has got. -/
structure Buffer where
  data : List UInt8
  bytesValid : List Bool := []
deriving Repr, DecidableEq

/-- What the access is shown. The caller passes no data for a holder that has none. -/
structure Provider extends Span where
  isSecure : Bool := false
  data : Option (List UInt8)
  sized : ∀ bytes, data = some bytes → bytes.length = size

/-- `std::min` and `std::max` of two addresses. -/
def minAddr (a b : BitVec 64) : BitVec 64 := if b < a then b else a

def maxAddr (a b : BitVec 64) : BitVec 64 := if a < b then b else a

/-- A list with the elements from the offset on overwritten. -/
def splice {α : Type*} (l : List α) (offset : Nat) (new : List α) : List α :=
  l.take offset ++ new ++ l.drop (offset + new.length)

def memcpy (dst : List UInt8) (dstOffset : Nat) (src : List UInt8) (srcOffset size : Nat) :
    List UInt8 :=
  splice dst dstOffset ((src.drop srcOffset).take size)

/-- What a call returns and leaves: the answer, the buffer of the packet and the data
of the holder. -/
structure Outcome where
  satisfied : Bool
  buffer : Buffer
  data : Option (List UInt8)
deriving Repr, DecidableEq

/-- `trySatisfyFunctional`; `none` is the panic or a failed assertion. -/
def trySatisfyFunctional (access : Access) (buffer : Buffer) (provider : Provider) :
    Option Outcome :=
  let funcStart := access.addr
  let funcEnd := access.last
  let valStart := provider.addr
  let valEnd := provider.last
  if provider.isSecure ≠ access.isSecure ∨ funcStart > valEnd ∨ valStart > funcEnd then
    some ⟨false, buffer, provider.data⟩
  else if access.isPrint then
    if provider.data.isSome then none else some ⟨false, buffer, provider.data⟩
  else
    match provider.data with
    | none => some ⟨false, buffer, none⟩
    | some bytes =>
      let valOffset := (if funcStart > valStart then funcStart - valStart else 0).toNat
      let funcOffset := (if funcStart < valStart then valStart - funcStart else 0).toNat
      let overlapSize := (minAddr valEnd funcEnd + 1 - maxAddr valStart funcStart).toNat
      if access.isRead then
        let data := memcpy buffer.data funcOffset bytes valOffset overlapSize
        -- the vector is made when it is used first
        let bytesValid :=
          if buffer.bytesValid.isEmpty then List.replicate access.size false
          else buffer.bytesValid
        let allBytesValid := (bytesValid.take funcOffset).all id &&
          (bytesValid.drop (funcOffset + overlapSize)).all id
        -- the bytes supplied now are valid, too
        let bytesValid := splice bytesValid funcOffset (List.replicate overlapSize true)
        some ⟨allBytesValid, ⟨data, bytesValid⟩, some bytes⟩
      else if access.isWrite then
        some ⟨false, buffer, some (memcpy bytes valOffset buffer.data funcOffset overlapSize)⟩
      else none

/-! ### Offsets -/

theorem Span.last_toNat (span : Span) : span.last.toNat = span.addr.toNat + span.size - 1 := by
  have positive := span.nonempty
  have inside := span.inside
  have small := span.addr.isLt
  simp only [Span.last, BitVec.ofNat_eq_ofNat, BitVec.toNat_sub, BitVec.toNat_add,
    BitVec.toNat_ofNat]
  omega

theorem Span.overlaps_iff (span other : Span) :
    span.Overlaps other ↔ ¬ (span.addr > other.last ∨ other.addr > span.last) := by
  have positive := span.nonempty
  have also := other.nonempty
  simp only [gt_iff_lt, BitVec.lt_def, Span.last_toNat, Span.Overlaps, Span.Holds]
  constructor
  · rintro ⟨a, here, there⟩
    omega
  · intro _
    by_cases first : span.addr.toNat ≤ other.addr.toNat
    · exact ⟨other.addr.toNat, by omega, by omega⟩
    · exact ⟨span.addr.toNat, by omega, by omega⟩

variable {bytes : List UInt8} {i : Nat}

section Offsets

variable (span other : Span)

theorem offset_toNat : (if span.addr > other.addr then span.addr - other.addr else 0).toNat =
    span.addr.toNat - other.addr.toNat := by
  have small := span.addr.isLt
  have also := other.addr.isLt
  split
  next later =>
    rw [gt_iff_lt, BitVec.lt_def] at later
    rw [BitVec.toNat_sub]
    omega
  next earlier =>
    rw [gt_iff_lt, BitVec.lt_def] at earlier
    simp only [BitVec.ofNat_eq_ofNat, BitVec.toNat_ofNat]
    omega

theorem overlapSize_toNat (meet : span.Overlaps other) :
    (minAddr other.last span.last + 1 - maxAddr other.addr span.addr).toNat =
      min (other.addr.toNat + other.size) (span.addr.toNat + span.size) -
        max other.addr.toNat span.addr.toNat := by
  have apart := (span.overlaps_iff other).mp meet
  simp only [gt_iff_lt, BitVec.lt_def, Span.last_toNat] at apart
  have lastNat : (minAddr other.last span.last).toNat =
      min (other.addr.toNat + other.size) (span.addr.toNat + span.size) - 1 := by
    simp only [minAddr, BitVec.lt_def, Span.last_toNat]
    split <;> simp only [Span.last_toNat] <;> omega
  have firstNat : (maxAddr other.addr span.addr).toNat =
      max other.addr.toNat span.addr.toNat := by
    simp only [maxAddr, BitVec.lt_def]
    split <;> omega
  have positive := span.nonempty
  have also := other.nonempty
  have inside := span.inside
  have alsoInside := other.inside
  have short := span.short
  have order : max other.addr.toNat span.addr.toNat <
      min (other.addr.toNat + other.size) (span.addr.toNat + span.size) := by omega
  have extent : min (other.addr.toNat + other.size) (span.addr.toNat + span.size) <
      max other.addr.toNat span.addr.toNat + 2 ^ 31 := by omega
  have top : min (other.addr.toNat + other.size) (span.addr.toNat + span.size) ≤ 2 ^ 64 := by omega
  simp only [BitVec.ofNat_eq_ofNat, BitVec.toNat_sub, BitVec.toNat_add, BitVec.toNat_ofNat,
    lastNat, firstNat]
  generalize max other.addr.toNat span.addr.toNat = low at *
  generalize min (other.addr.toNat + other.size) (span.addr.toNat + span.size) = high at *
  omega

/-- The bytes from the offset on are those the other range holds. -/
theorem offset_iff (meet : span.Overlaps other) (within : i < span.size) :
    (other.addr.toNat - span.addr.toNat ≤ i ∧ i < other.addr.toNat - span.addr.toNat +
        (min (other.addr.toNat + other.size) (span.addr.toNat + span.size) -
          max other.addr.toNat span.addr.toNat)) ↔ other.Holds (span.addr.toNat + i) := by
  obtain ⟨_, here, there⟩ := meet
  simp only [Span.Holds] at here there ⊢
  omega

end Offsets

/-! ### Overwritten lists -/

section Splice

variable {α : Type*} (l : List α) (offset : Nat) (new : List α)

theorem length_copied {size : Nat} (room : offset + size ≤ l.length) :
    ((l.drop offset).take size).length = size := by
  rw [List.length_take, List.length_drop]
  omega

theorem length_splice (fits : offset + new.length ≤ l.length) :
    (splice l offset new).length = l.length := by
  simp only [splice, List.length_append, List.length_take, List.length_drop]
  omega

theorem getElem?_splice (fits : offset + new.length ≤ l.length) (i : Nat) :
    (splice l offset new)[i]? =
      if offset ≤ i ∧ i < offset + new.length then new[i - offset]? else l[i]? := by
  have front : (l.take offset).length = offset := by
    rw [List.length_take]
    omega
  unfold splice
  by_cases before : i < offset
  · rw [if_neg (by omega), List.append_assoc, List.getElem?_append_left (by omega),
      List.getElem?_take_of_lt before]
  · by_cases inside : i < offset + new.length
    · rw [if_pos ⟨by omega, inside⟩, List.append_assoc, List.getElem?_append_right (by omega),
        front, List.getElem?_append_left (by omega)]
    · have both : (l.take offset ++ new).length = offset + new.length := by
        rw [List.length_append, front]
      rw [if_neg (by omega), List.getElem?_append_right (by omega), both, List.getElem?_drop,
        Nat.add_sub_cancel' (by omega)]

end Splice

/-- All elements outside a stretch of the list are set. -/
theorem outside_all_iff (l : List Bool) (a b : Nat) :
    ((l.take a).all id && (l.drop b).all id) = true ↔
      ∀ i, i < l.length → (i < a ∨ b ≤ i) → l[i]? = some true := by
  simp only [Bool.and_eq_true, List.all_eq_true, id, List.mem_take_iff_getElem,
    List.mem_drop_iff_getElem]
  constructor
  · rintro ⟨front, back⟩ i within (before | behind)
    · rw [List.getElem?_eq_getElem within, front _ ⟨i, by omega, rfl⟩]
    · obtain ⟨k, rfl⟩ := Nat.exists_eq_add_of_le behind
      rw [List.getElem?_eq_getElem within, back _ ⟨k, by omega, rfl⟩]
  · intro outside
    constructor
    · rintro _ ⟨i, within, rfl⟩
      have valid := outside i (by omega) (.inl (by omega))
      rwa [List.getElem?_eq_getElem, Option.some.injEq] at valid
    · rintro _ ⟨k, within, rfl⟩
      have valid := outside (b + k) (by omega) (.inr (Nat.le_add_right b k))
      rwa [List.getElem?_eq_getElem, Option.some.injEq] at valid

/-! ### One call -/

/-- The holder takes part in the access: it has data of the same world that overlap it. -/
structure Supplies (access : Access) (provider : Provider) : Prop where
  data : provider.data.isSome = true
  secure : provider.isSecure = access.isSecure
  meets : access.Overlaps provider.toSpan

/-- The byte of the holder at the address. -/
def Provider.byteAt (provider : Provider) (a : Nat) : Option UInt8 :=
  if provider.addr.toNat ≤ a then provider.data.bind fun bytes => bytes[a - provider.addr.toNat]?
  else none

variable {access : Access} {provider : Provider}

theorem trySatisfyFunctional_of_not_supplies (noPrint : access.isPrint = false) (buffer : Buffer)
    {provider : Provider} (apart : ¬ Supplies access provider) :
    trySatisfyFunctional access buffer provider = some ⟨false, buffer, provider.data⟩ := by
  unfold trySatisfyFunctional
  dsimp only
  split
  · rfl
  next meet =>
    rw [not_or, not_ne_iff] at meet
    rw [if_neg (by simp [noPrint])]
    cases has : provider.data with
    | none => rfl
    | some =>
      refine absurd ⟨by rw [has]; rfl, meet.1, ?_⟩ apart
      exact (access.toSpan.overlaps_iff provider.toSpan).mpr meet.2

section Supplied

variable {access : Access} {provider : Provider} (buffer : Buffer)

/-- Where the bytes of the holder go in the packet, where they are in the holder, and how
many they are. -/
def funcOffset (access : Access) (provider : Provider) : Nat :=
  provider.addr.toNat - access.addr.toNat

def valOffset (access : Access) (provider : Provider) : Nat :=
  access.addr.toNat - provider.addr.toNat

def overlapSize (access : Access) (provider : Provider) : Nat :=
  min (provider.addr.toNat + provider.size) (access.addr.toNat + access.size) -
    max provider.addr.toNat access.addr.toNat

theorem trySatisfyFunctional_of_supplies (noPrint : access.isPrint = false)
    (supplies : Supplies access provider) (has : provider.data = some bytes) :
    trySatisfyFunctional access buffer provider =
      if access.isRead then
        let valid := if buffer.bytesValid.isEmpty then List.replicate access.size false
          else buffer.bytesValid
        some ⟨(valid.take (funcOffset access provider)).all id &&
            (valid.drop (funcOffset access provider + overlapSize access provider)).all id,
          ⟨memcpy buffer.data (funcOffset access provider) bytes (valOffset access provider)
              (overlapSize access provider),
            splice valid (funcOffset access provider)
              (List.replicate (overlapSize access provider) true)⟩, some bytes⟩
      else if access.isWrite then
        some ⟨false, buffer, some (memcpy bytes (valOffset access provider) buffer.data
          (funcOffset access provider) (overlapSize access provider))⟩
      else none := by
  have meet := (access.toSpan.overlaps_iff provider.toSpan).mp supplies.meets
  have offset := offset_toNat provider.toSpan access.toSpan
  simp only [gt_iff_lt] at offset
  unfold trySatisfyFunctional
  dsimp only
  rw [if_neg (not_or.mpr ⟨not_ne_iff.mpr supplies.secure, meet⟩), if_neg (by simp [noPrint]), has]
  dsimp only
  rw [offset_toNat access.toSpan provider.toSpan,
    overlapSize_toNat access.toSpan provider.toSpan supplies.meets, offset]
  rfl

section

variable (supplies : Supplies access provider)
include supplies

theorem funcOffset_le : funcOffset access provider + overlapSize access provider ≤ access.size := by
  obtain ⟨_, here, there⟩ := supplies.meets
  simp only [Span.Holds] at here there
  simp only [funcOffset, overlapSize]
  omega

theorem valOffset_le : valOffset access provider + overlapSize access provider ≤ provider.size := by
  obtain ⟨_, here, there⟩ := supplies.meets
  simp only [Span.Holds] at here there
  simp only [valOffset, overlapSize]
  omega

theorem copied_iff (within : i < access.size) : (funcOffset access provider ≤ i ∧
      i < funcOffset access provider + overlapSize access provider) ↔
      provider.Holds (access.addr.toNat + i) :=
  offset_iff access.toSpan provider.toSpan supplies.meets within

theorem getElem?_copied (has : provider.data = some bytes) {data : List UInt8}
    (sized : data.length = access.size) (within : i < access.size) :
    (memcpy data (funcOffset access provider) bytes (valOffset access provider)
      (overlapSize access provider))[i]? =
      if provider.Holds (access.addr.toNat + i) then provider.byteAt (access.addr.toNat + i)
      else data[i]? := by
  have enough := valOffset_le supplies
  have room := funcOffset_le supplies
  have length := length_copied _ _
    (Nat.le_trans enough (Nat.le_of_eq (provider.sized bytes has).symm))
  rw [memcpy, getElem?_splice _ _ _ (by omega), length]
  simp only [copied_iff supplies within]
  split
  next holds =>
    have inside := (copied_iff supplies within).mpr holds
    rw [List.getElem?_take_of_lt (by omega), List.getElem?_drop, Provider.byteAt, if_pos holds.1,
      has, Option.bind_some]
    simp only [Span.Holds] at holds
    simp only [funcOffset, valOffset] at inside ⊢
    congr 1
    omega
  next => rfl

end

end Supplied

/-! ### A read and the holders it has been shown -/

instance (access : Access) (provider : Provider) : Decidable (Supplies access provider) :=
  haveI : Decidable (access.Overlaps provider.toSpan) :=
    decidable_of_iff _ (access.toSpan.overlaps_iff provider.toSpan).symm
  decidable_of_iff (provider.data.isSome = true ∧ provider.isSecure = access.isSecure ∧
      access.Overlaps provider.toSpan)
    ⟨fun ⟨data, secure, meets⟩ => ⟨data, secure, meets⟩,
      fun supplies => ⟨supplies.data, supplies.secure, supplies.meets⟩⟩

/-- The byte a holder supplies to the access. -/
def suppliedByte (access : Access) (i : Nat) (provider : Provider) : Option UInt8 :=
  if Supplies access provider then provider.byteAt (access.addr.toNat + i) else none

/-- The byte of the last holder that supplied it. -/
def lastByte (access : Access) (shown : List Provider) (i : Nat) : Option UInt8 :=
  shown.foldl (fun last provider => (suppliedByte access i provider).or last) none

theorem lastByte_concat (access : Access) (shown : List Provider) (provider : Provider) (i : Nat) :
    lastByte access (shown ++ [provider]) i =
      (suppliedByte access i provider).or (lastByte access shown i) := by
  simp [lastByte]

theorem byteAt_isSome_iff (a : Nat) (has : provider.data.isSome = true) :
    (provider.byteAt a).isSome = true ↔ provider.Holds a := by
  obtain ⟨bytes, isData⟩ := Option.isSome_iff_exists.mp has
  have sized := provider.sized bytes isData
  unfold Provider.byteAt Span.Holds
  split
  next =>
    simp only [isData, Option.bind_some, isSome_getElem?]
    omega
  next short => simp [short]

theorem suppliedByte_isSome_iff (access : Access) (i : Nat) (provider : Provider) :
    (suppliedByte access i provider).isSome = true ↔
      Supplies access provider ∧ provider.Holds (access.addr.toNat + i) := by
  unfold suppliedByte
  split
  next supplies => simp [byteAt_isSome_iff _ supplies.data, supplies]
  next other => simp [other]

theorem lastByte_isSome_iff (access : Access) (shown : List Provider) (i : Nat) :
    (lastByte access shown i).isSome = true ↔
      ∃ provider ∈ shown, Supplies access provider ∧ provider.Holds (access.addr.toNat + i) := by
  induction shown using List.reverseRecOn with
  | nil => simp [lastByte]
  | append_singleton _ _ ih =>
    rw [lastByte_concat, Option.isSome_or, Bool.or_eq_true, ih, suppliedByte_isSome_iff]
    simp only [List.mem_append, List.mem_singleton, or_and_right, exists_or, exists_eq_left]
    exact or_comm

/-- What the packet has after it was shown the holders. -/
structure Filled (access : Access) (original : List UInt8) (shown : List Provider)
    (buffer : Buffer) : Prop where
  sized : buffer.data.length = access.size
  tracked : buffer.bytesValid = [] ∨ buffer.bytesValid.length = access.size
  data : ∀ i, i < access.size → buffer.data[i]? = (lastByte access shown i).or original[i]?
  valid : ∀ i, i < access.size →
    (buffer.bytesValid[i]? = some true ↔ (lastByte access shown i).isSome = true)

theorem filled_nil {original : List UInt8} (sized : original.length = access.size) :
    Filled access original [] ⟨original, []⟩ where
  sized := sized
  tracked := .inl rfl
  data := fun _ _ => by simp [lastByte]
  valid := fun _ _ => by simp [lastByte]

section Step

variable {access : Access} {original : List UInt8} {shown : List Provider} {buffer : Buffer}

/-- The vector that the call works on. -/
def validBytes (access : Access) (buffer : Buffer) : List Bool :=
  if buffer.bytesValid.isEmpty then List.replicate access.size false else buffer.bytesValid

section Filled

variable (filled : Filled access original shown buffer)
include filled

theorem Filled.validBytes_length : (validBytes access buffer).length = access.size := by
  unfold validBytes
  split
  next => rw [List.length_replicate]
  next used =>
    rw [List.isEmpty_iff] at used
    exact filled.tracked.resolve_left used

theorem Filled.getElem?_validBytes {i : Nat} (within : i < access.size) :
    (validBytes access buffer)[i]? = some true ↔ (lastByte access shown i).isSome = true := by
  rw [← filled.valid i within]
  unfold validBytes
  split
  next unused =>
    rw [List.isEmpty_iff] at unused
    simp [unused, within]
  next => rfl

theorem Filled.other (provider : Provider) (apart : ¬ Supplies access provider) :
    Filled access original (shown ++ [provider]) buffer := by
  have same (i : Nat) : lastByte access (shown ++ [provider]) i = lastByte access shown i := by
    rw [lastByte_concat, suppliedByte, if_neg apart, Option.none_or]
  refine ⟨filled.sized, filled.tracked, fun i within => ?_, fun i within => ?_⟩
  · rw [same, filled.data i within]
  · rw [same, filled.valid i within]

omit filled in
theorem lastByte_of_supplies (supplies : Supplies access provider) (i : Nat) :
    lastByte access (shown ++ [provider]) i =
      if provider.Holds (access.addr.toNat + i) then provider.byteAt (access.addr.toNat + i)
      else lastByte access shown i := by
  rw [lastByte_concat, suppliedByte, if_pos supplies]
  have some_iff := byteAt_isSome_iff (access.addr.toNat + i) supplies.data
  split
  next holds =>
    obtain ⟨_, isByte⟩ := Option.isSome_iff_exists.mp (some_iff.mpr holds)
    rw [isByte, Option.some_or]
  next outside =>
    rw [← some_iff, Bool.not_eq_true, Option.isSome_eq_false_iff,
      Option.isNone_iff_eq_none] at outside
    rw [outside, Option.none_or]

theorem Filled.supplied (provider : Provider) (supplies : Supplies access provider)
    (bytes : List UInt8) (has : provider.data = some bytes) :
    Filled access original (shown ++ [provider])
      ⟨memcpy buffer.data (funcOffset access provider) bytes (valOffset access provider)
          (overlapSize access provider),
        splice (validBytes access buffer) (funcOffset access provider)
          (List.replicate (overlapSize access provider) true)⟩ := by
  have room := funcOffset_le supplies
  have enough := valOffset_le supplies
  have length := filled.validBytes_length
  refine ⟨?_, .inr ?_, fun i within => ?_, fun i within => ?_⟩
  · have copied := length_copied _ _
      (Nat.le_trans enough (Nat.le_of_eq (provider.sized bytes has).symm))
    rw [memcpy, length_splice _ _ _ (by rw [copied, filled.sized]; exact room), filled.sized]
  · rw [length_splice _ _ _ (by rw [List.length_replicate, length]; exact room), length]
  · rw [getElem?_copied supplies has filled.sized within, lastByte_of_supplies supplies,
      filled.data i within]
    split
    next holds =>
      obtain ⟨_, isByte⟩ := Option.isSome_iff_exists.mp
        ((byteAt_isSome_iff _ supplies.data).mpr holds)
      rw [isByte, Option.some_or]
    next => rfl
  · rw [getElem?_splice _ _ _ (by rw [List.length_replicate, length]; exact room),
      List.length_replicate, lastByte_of_supplies supplies]
    simp only [copied_iff supplies within]
    split
    next holds =>
      have inside := (copied_iff supplies within).mpr holds
      rw [byteAt_isSome_iff _ supplies.data, List.getElem?_replicate, if_pos (by omega)]
      exact ⟨fun _ => holds, fun _ => rfl⟩
    next => exact filled.getElem?_validBytes within

/-- The call is answered with true when nothing outside the bytes it copies is missing. -/
theorem Filled.satisfied_iff {provider : Provider} (supplies : Supplies access provider) :
    (((validBytes access buffer).take (funcOffset access provider)).all id &&
      ((validBytes access buffer).drop
        (funcOffset access provider + overlapSize access provider)).all id) = true ↔
      ∀ i, i < access.size → (lastByte access (shown ++ [provider]) i).isSome = true := by
  rw [outside_all_iff, filled.validBytes_length]
  refine forall_congr' fun i => forall_congr' fun within => ?_
  rw [lastByte_of_supplies supplies, filled.getElem?_validBytes within]
  have copied := copied_iff supplies within
  split
  next holds =>
    have inside := copied.mpr holds
    simp only [byteAt_isSome_iff _ supplies.data, holds, iff_true]
    omega
  next outside =>
    have away : i < funcOffset access provider ∨
        funcOffset access provider + overlapSize access provider ≤ i := by
      rw [← copied] at outside
      omega
    simp only [away, true_imp_iff]

end Filled

/-- One call of a read: what it returns and what it leaves. -/
theorem Filled.call (isRead : access.isRead = true) (noPrint : access.isPrint = false)
    (filled : Filled access original shown buffer) (provider : Provider) :
    ∃ outcome, trySatisfyFunctional access buffer provider = some outcome ∧
      outcome.data = provider.data ∧ Filled access original (shown ++ [provider]) outcome.buffer ∧
      (outcome.satisfied = true ↔ Supplies access provider ∧
        ∀ i, i < access.size → (lastByte access (shown ++ [provider]) i).isSome = true) := by
  by_cases supplies : Supplies access provider
  · obtain ⟨bytes, has⟩ := Option.isSome_iff_exists.mp supplies.data
    refine ⟨_, (trySatisfyFunctional_of_supplies buffer noPrint supplies has).trans
      (if_pos isRead), has.symm, filled.supplied provider supplies bytes has, ?_⟩
    simp only [supplies, true_and]
    exact filled.satisfied_iff supplies
  · refine ⟨_, trySatisfyFunctional_of_not_supplies noPrint buffer supplies, rfl,
      filled.other provider supplies, ?_⟩
    simp [supplies]

/-- The calls of a read, one after the other. -/
def showNext (access : Access) (buffer : Buffer) (provider : Provider) : Option Buffer :=
  (trySatisfyFunctional access buffer provider).map Outcome.buffer

theorem Filled.calls (isRead : access.isRead = true) (noPrint : access.isPrint = false)
    (filled : Filled access original shown buffer) (providers : List Provider) :
    ∃ after, Runs.run (showNext access) buffer providers = some after ∧
      Filled access original (shown ++ providers) after := by
  induction providers generalizing shown buffer with
  | nil => exact ⟨buffer, rfl, by rwa [List.append_nil]⟩
  | cons provider _ ih =>
    obtain ⟨outcome, called, _, next, _⟩ := filled.call isRead noPrint provider
    obtain ⟨after, ran, rest⟩ := ih next
    have taken : showNext access buffer provider = some outcome.buffer := by
      rw [showNext, called, Option.map_some]
    refine ⟨after, Runs.run_cons_iff.mpr ⟨_, taken, ran⟩, ?_⟩
    rwa [List.append_assoc, List.singleton_append] at rest

end Step

/-- The last holder of an address that takes part gives the byte. -/
theorem lastByte_of_split (before : List Provider) {behind : List Provider}
    (supplies : Supplies access provider) (holds : provider.Holds (access.addr.toNat + i))
    (last : ∀ other ∈ behind, Supplies access other → ¬ other.Holds (access.addr.toNat + i)) :
    lastByte access (before ++ provider :: behind) i = provider.byteAt (access.addr.toNat + i) := by
  induction behind using List.reverseRecOn with
  | nil => rw [lastByte_of_supplies supplies, if_pos holds]
  | append_singleton _ other ih =>
    rw [← List.cons_append, ← List.append_assoc, lastByte_concat]
    have nothing : suppliedByte access i other = none := by
      rw [← Option.isNone_iff_eq_none, ← Option.isSome_eq_false_iff, ← Bool.not_eq_true,
        suppliedByte_isSome_iff]
      exact fun ⟨takesPart, also⟩ =>
        last other (List.mem_append_right _ (List.mem_singleton_self _)) takesPart also
    rw [nothing, Option.none_or]
    exact ih fun other mem => last other (List.mem_append_left _ mem)

/-! ### Writes -/

/-- A write that takes part puts its bytes into the holder. -/
structure Updates (access : Access) (data : List UInt8) (provider : Provider)
    (bytes new : List UInt8) : Prop where
  length : new.length = bytes.length
  bytes : ∀ j, j < provider.size → new[j]? =
    if access.Holds (provider.addr.toNat + j) then
      data[provider.addr.toNat + j - access.addr.toNat]?
    else bytes[j]?

theorem trySatisfyFunctional_write (isWrite : access.isWrite = true)
    (noRead : access.isRead = false) (noPrint : access.isPrint = false) {buffer : Buffer}
    (sized : buffer.data.length = access.size) (supplies : Supplies access provider)
    (has : provider.data = some bytes) :
    ∃ new, trySatisfyFunctional access buffer provider = some ⟨false, buffer, some new⟩ ∧
      Updates access buffer.data provider bytes new := by
  have room := valOffset_le supplies
  have enough := funcOffset_le supplies
  have length := provider.sized bytes has
  have copied := length_copied _ _ (Nat.le_trans enough (Nat.le_of_eq sized.symm))
  refine ⟨_, (trySatisfyFunctional_of_supplies buffer noPrint supplies has).trans
    ((if_neg (by simp [noRead])).trans (if_pos isWrite)), ?_, fun j within => ?_⟩
  · rw [memcpy, length_splice _ _ _ (by omega)]
  · obtain ⟨_, here, there⟩ := supplies.meets
    simp only [Span.Holds] at here there
    rw [memcpy, getElem?_splice _ _ _ (by omega), copied]
    by_cases inside : valOffset access provider ≤ j ∧
        j < valOffset access provider + overlapSize access provider
    · rw [if_pos inside, List.getElem?_take_of_lt (by omega), List.getElem?_drop]
      simp only [valOffset, funcOffset, overlapSize] at inside ⊢
      have holds : access.Holds (provider.addr.toNat + j) := ⟨by omega, by omega⟩
      rw [if_pos holds]
      congr 1
      omega
    · rw [if_neg inside, if_neg]
      simp only [valOffset, overlapSize] at inside
      rintro ⟨low, high⟩
      omega

/-! ### Every sequence of calls -/

/-- The ranges of the holders that took part cover the packet. -/
def Covered (access : Access) (shown : List Provider) : Prop :=
  ∀ a, access.Holds a → ∃ provider ∈ shown, Supplies access provider ∧ provider.Holds a

/-- The answer to a read that was shown the holders before. -/
structure AnswersRead (access : Access) (shown : List Provider) (buffer : Buffer)
    (provider : Provider) (outcome : Outcome) : Prop where
  data : outcome.data = provider.data
  satisfied : Supplies access provider →
    (outcome.satisfied = true ↔ Covered access (shown ++ [provider]))
  other : ¬ Supplies access provider → outcome.satisfied = false ∧ outcome.buffer = buffer

/-- Each byte is that of the last holder that had it, and the other bytes are the ones of
before. -/
structure LastBytes (access : Access) (original : List UInt8) (shown : List Provider)
    (data : List UInt8) : Prop where
  last : ∀ a before provider behind, access.Holds a → shown = before ++ provider :: behind →
    Supplies access provider → provider.Holds a →
    (∀ other ∈ behind, Supplies access other → ¬ other.Holds a) →
    data[a - access.addr.toNat]? = provider.byteAt a
  untouched : ∀ a, access.Holds a →
    (∀ provider ∈ shown, Supplies access provider → ¬ provider.Holds a) →
    data[a - access.addr.toNat]? = original[a - access.addr.toNat]?

section Sequences

variable {access : Access} {original : List UInt8} {shown : List Provider} {buffer : Buffer}

theorem covered_iff : Covered access shown ↔
    ∀ i, i < access.size → (lastByte access shown i).isSome = true := by
  constructor
  · intro covered _ within
    rw [lastByte_isSome_iff]
    exact covered _ ⟨Nat.le_add_right _ _, Nat.add_lt_add_left within _⟩
  · rintro supplied a ⟨low, high⟩
    obtain ⟨i, rfl⟩ := Nat.exists_eq_add_of_le low
    exact (lastByte_isSome_iff access shown i).mp (supplied i (by omega))

theorem Filled.answers (isRead : access.isRead = true) (noPrint : access.isPrint = false)
    (filled : Filled access original shown buffer) (provider : Provider) :
    ∃ outcome, trySatisfyFunctional access buffer provider = some outcome ∧
      AnswersRead access shown buffer provider outcome := by
  obtain ⟨outcome, called, data, _, satisfied⟩ := filled.call isRead noPrint provider
  refine ⟨outcome, called, data, fun supplies => ?_, fun apart => ?_⟩
  · rw [satisfied, covered_iff]
    exact and_iff_right supplies
  · rw [trySatisfyFunctional_of_not_supplies noPrint buffer apart] at called
    cases called
    exact ⟨rfl, rfl⟩

theorem Filled.lastBytes (filled : Filled access original shown buffer) :
    LastBytes access original shown buffer.data := by
  constructor
  · rintro a before provider behind ⟨low, high⟩ split supplies holds last
    obtain ⟨i, rfl⟩ := Nat.exists_eq_add_of_le low
    obtain ⟨_, isByte⟩ := Option.isSome_iff_exists.mp
      ((byteAt_isSome_iff _ supplies.data).mpr holds)
    rw [Nat.add_sub_cancel_left, filled.data i (by omega), split,
      lastByte_of_split before supplies holds last, isByte, Option.some_or]
  · rintro a ⟨low, high⟩ untouched
    obtain ⟨i, rfl⟩ := Nat.exists_eq_add_of_le low
    have nothing : lastByte access shown i = none := by
      rw [← Option.isNone_iff_eq_none, ← Option.isSome_eq_false_iff, ← Bool.not_eq_true,
        lastByte_isSome_iff]
      exact fun ⟨provider, mem, supplies, holds⟩ => untouched provider mem supplies holds
    rw [Nat.add_sub_cancel_left, filled.data i (by omega), nothing, Option.none_or]

end Sequences

/-- A functional read that has been shown any holders of data: a holder that takes part is
answered with true exactly when every byte of the packet has been supplied, any other call
returns false and changes nothing, and each byte supplied is that of the last holder that
had it. A functional write updates the bytes it shares with the holder and is never
satisfied. -/
theorem functional_access_exact (access : Access) (noPrint : access.isPrint = false)
    (original : List UInt8) (sized : original.length = access.size) :
    (access.isRead = true → ∀ shown, ∃ buffer,
      Runs.run (showNext access) ⟨original, []⟩ shown = some buffer ∧
      LastBytes access original shown buffer.data ∧
      ∀ provider, ∃ outcome, trySatisfyFunctional access buffer provider = some outcome ∧
        AnswersRead access shown buffer provider outcome) ∧
    (access.isWrite = true → access.isRead = false → ∀ valid provider,
      (∀ bytes, provider.data = some bytes → Supplies access provider →
        ∃ new, trySatisfyFunctional access ⟨original, valid⟩ provider =
            some ⟨false, ⟨original, valid⟩, some new⟩ ∧
          Updates access original provider bytes new) ∧
      (¬ Supplies access provider → trySatisfyFunctional access ⟨original, valid⟩ provider =
        some ⟨false, ⟨original, valid⟩, provider.data⟩)) := by
  refine ⟨fun isRead shown => ?_, fun isWrite noRead valid provider => ⟨?_, ?_⟩⟩
  · obtain ⟨buffer, ran, filled⟩ := (filled_nil sized).calls isRead noPrint shown
    rw [List.nil_append] at filled
    exact ⟨buffer, ran, filled.lastBytes, filled.answers isRead noPrint⟩
  · intro _ has supplies
    exact trySatisfyFunctional_write isWrite noRead noPrint sized supplies has
  · exact trySatisfyFunctional_of_not_supplies noPrint _

/-- A read of two bytes that has been shown a holder of the first one. -/
theorem functional_access_exact_firstByte :
    let access : Access :=
      { addr := 64, size := 2, nonempty := by decide, short := by decide, inside := by decide
        isRead := true }
    let holder : Provider :=
      { addr := 63, size := 2, nonempty := by decide, short := by decide, inside := by decide
        data := some [5, 7], sized := by simp }
    ∃ buffer, Runs.run (showNext access) ⟨[0, 0], []⟩ [holder] = some buffer ∧
      buffer = ⟨[7, 0], [true, false]⟩ ∧ LastBytes access [0, 0] [holder] buffer.data := by
  intro access holder
  obtain ⟨buffer, ran, bytes, _⟩ := (functional_access_exact access rfl [0, 0] rfl).1 rfl [holder]
  refine ⟨buffer, ran, ?_, bytes⟩
  have evaluated : Runs.run (showNext access) ⟨[0, 0], []⟩ [holder] =
      some ⟨[7, 0], [true, false]⟩ := by decide
  exact Option.some.inj (ran.symm.trans evaluated)

end RasCache.Mem.FunctionalAccess
