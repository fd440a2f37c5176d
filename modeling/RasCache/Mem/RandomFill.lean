import Mathlib.Algebra.Group.Int.Defs
import RasCache.Foundation.WordFields

/-!
# Candidates of the random-fill prefetcher

Model of `RandomFill::calculatePrefetch` and of the cross-page panic of
`RandomFill::insert` (`mem/cache/prefetch/random_fill.cc`), with `samePage` and
`blockAddress` of `mem/cache/prefetch/base.cc`. An offset drawn at random is
shifted as an `int` and added to the address of the accessed block; one that
leaves the page is reflected. The draws are given as a list, one for each turn of
the loop, and a panic is `none`. The priority of every candidate is zero and is
left out.

`randomFill_stays_iff` says for which windows the reflected offset is in the page,
with the overflow of the shift.
-/
namespace RasCache.Mem

open WordFields

/-- Sizes are powers of two. The bounds of the window are the ones the constructor
checks. -/
structure RandomFillParams where
  lBlkSize : Nat
  lPageBytes : Nat
  lowRange : Int
  highRange : Int
  block_fits : lBlkSize < 32
  page_fits : lPageBytes < 64
  block_le : lBlkSize ≤ lPageBytes
  low_bound : -32 ≤ lowRange
  high_bound : highRange ≤ 32
  ordered : lowRange ≤ highRange
deriving DecidableEq

namespace RandomFillParams

variable (cfg : RandomFillParams)

def blkSize : Nat := 2 ^ cfg.lBlkSize

def pageBytes : Nat := 2 ^ cfg.lPageBytes

def blockAddress (addr : BitVec 64) : BitVec 64 := alignDown cfg.lBlkSize addr

def samePage (first second : BitVec 64) : Bool :=
  decide (alignDown cfg.lPageBytes first = alignDown cfg.lPageBytes second)

/-- `random_offset << lBlkSize`, an `int`, as it is added to an address. -/
def displacement (offset : Int) : BitVec 64 :=
  (BitVec.ofInt 32 offset <<< cfg.lBlkSize).signExtend 64

/-- One turn of the loop of `calculatePrefetch`. -/
def candidate (blkAddr : BitVec 64) (offset : Int) : Option (BitVec 64) :=
  let newAddr := blkAddr + cfg.displacement offset
  if cfg.samePage blkAddr newAddr then some newAddr
  else
    let newAddr := blkAddr + cfg.displacement (-offset)
    if !cfg.samePage blkAddr newAddr then none
    else if newAddr ≠ cfg.blockAddress newAddr then none
    else some newAddr

def calculatePrefetch (addr : BitVec 64) (draws : List Int) : Option (List (BitVec 64)) :=
  draws.mapM (cfg.candidate (cfg.blockAddress addr))

/-- The panic of `insert` on a candidate outside the page of the access. -/
def insertPanics (addr target : BitVec 64) : Bool := !cfg.samePage addr target

/-- The offset is one that can be drawn. -/
def Drawn (offset : Int) : Prop := cfg.lowRange ≤ offset ∧ offset ≤ cfg.highRange

/-- Whatever is drawn, the candidates are blocks of the page of the access. -/
def StaysInPage : Prop :=
  ∀ (addr : BitVec 64) (draws : List Int), (∀ offset ∈ draws, cfg.Drawn offset) →
    ∃ targets, cfg.calculatePrefetch addr draws = some targets ∧
      ∀ target ∈ targets, cfg.blockAddress target = target ∧
        cfg.samePage (cfg.blockAddress addr) target = true ∧
        cfg.insertPanics addr target = false

/-- How far a shifted offset leads: an `int`, which can overflow. -/
def distance (offset : Int) : Int := (offset * cfg.blkSize).bmod (2 ^ 32)

/-- A reflected offset has room on the other side. The least `int` is its own negation, so it has
none. -/
def HalfPage : Prop :=
  ∀ offset, cfg.Drawn offset →
    -2 ^ 31 < cfg.distance offset ∧ 2 * (cfg.distance offset).natAbs ≤ cfg.pageBytes

/-! ### Positions in the page -/

/-- The first byte of the page. -/
def page (addr : BitVec 64) : Nat := addr.toNat / cfg.pageBytes * cfg.pageBytes

theorem samePage_iff (first second : BitVec 64) : cfg.samePage first second = true ↔
    cfg.page first ≤ second.toNat ∧ second.toNat < cfg.page first + cfg.pageBytes := by
  rw [samePage, decide_eq_true_eq, alignDown_eq_iff]
  exact Iff.rfl

theorem page_bounds (addr : BitVec 64) :
    cfg.page addr ≤ addr.toNat ∧ addr.toNat < cfg.page addr + cfg.pageBytes ∧
      cfg.page addr + cfg.pageBytes ≤ 2 ^ 64 ∧ cfg.pageBytes ≤ 2 ^ 63 := by
  have self := (cfg.samePage_iff addr addr).mp (by simp [samePage])
  have half : cfg.pageBytes ≤ 2 ^ 63 :=
    Nat.pow_le_pow_right (by decide) (Nat.le_of_lt_succ cfg.page_fits)
  refine ⟨self.1, self.2, ?_, half⟩
  -- pages divide the address space
  have power : cfg.pageBytes * 2 ^ (64 - cfg.lPageBytes) = 2 ^ 64 := by
    rw [pageBytes, ← Nat.pow_add, Nat.add_sub_cancel' (Nat.le_of_lt cfg.page_fits)]
  have below : addr.toNat / cfg.pageBytes < 2 ^ (64 - cfg.lPageBytes) := by
    apply Nat.div_lt_of_lt_mul
    rw [power]
    exact addr.isLt
  have next : (addr.toNat / cfg.pageBytes + 1) * cfg.pageBytes ≤
      2 ^ (64 - cfg.lPageBytes) * cfg.pageBytes := Nat.mul_le_mul_right _ below
  rw [Nat.mul_comm (2 ^ _), power, Nat.succ_mul] at next
  exact next

theorem displacement_toInt (offset : Int) :
    (cfg.displacement offset).toInt = cfg.distance offset := by
  rw [displacement, BitVec.toInt_signExtend_of_le (by decide), ofInt_shiftLeft, BitVec.toInt_ofInt]
  rfl

theorem distance_bounds (offset : Int) :
    -2 ^ 31 ≤ cfg.distance offset ∧ cfg.distance offset < 2 ^ 31 := by
  rw [distance, Int.bmod_def]
  omega

theorem distance_neg (offset : Int) : cfg.distance (-offset) =
    if cfg.distance offset = -2 ^ 31 then -2 ^ 31 else -cfg.distance offset := by
  rw [distance, distance, Int.neg_mul, Int.bmod_def, Int.bmod_def]
  omega

theorem blkSize_dvd_distance (offset : Int) : (cfg.blkSize : Int) ∣ cfg.distance offset := by
  have blocks : (cfg.blkSize : Int) ∣ ((2 ^ 32 : Nat) : Int) :=
    Int.natCast_dvd_natCast.mpr (Nat.pow_dvd_pow 2 (Nat.le_of_lt cfg.block_fits))
  apply Int.dvd_of_emod_eq_zero
  rw [← Int.emod_emod_of_dvd _ blocks, distance, Int.bmod_emod, Int.emod_emod_of_dvd _ blocks]
  exact Int.mul_emod_left _ _

/-- Where a displacement leads, as if there were no wrap of addresses. -/
theorem displaced (blkAddr : BitVec 64) (offset : Int) :
    (cfg.samePage blkAddr (blkAddr + cfg.displacement offset) = true ↔
      (cfg.page blkAddr : Int) ≤ blkAddr.toNat + cfg.distance offset ∧
        blkAddr.toNat + cfg.distance offset < cfg.page blkAddr + cfg.pageBytes) ∧
    (cfg.samePage blkAddr (blkAddr + cfg.displacement offset) = true →
      ((blkAddr + cfg.displacement offset).toNat : Int) = blkAddr.toNat + cfg.distance offset) := by
  obtain ⟨_, _, _, half⟩ := cfg.page_bounds blkAddr
  have bounds := cfg.distance_bounds offset
  have sum := toNat_add_toInt blkAddr (cfg.displacement offset)
  rw [cfg.displacement_toInt offset] at sum
  rw [cfg.samePage_iff]
  -- the page is at most half of the address space, so a wrap leads far away from it
  generalize (blkAddr + cfg.displacement offset).toNat = target at sum ⊢
  generalize cfg.distance offset = distance at sum bounds ⊢
  constructor
  · constructor
    · rintro ⟨low, high⟩
      omega
    · rintro ⟨low, high⟩
      omega
  · rintro ⟨low, high⟩
    omega

theorem blockAddress_eq_iff (addr : BitVec 64) :
    cfg.blockAddress addr = addr ↔ cfg.blkSize ∣ addr.toNat := by
  rw [blockAddress, ← BitVec.toNat_inj, alignDown_toNat]
  constructor
  · intro same
    rw [← same]
    exact Nat.dvd_mul_left _ _
  · exact Nat.div_mul_cancel

theorem blkSize_dvd_blockAddress (addr : BitVec 64) :
    cfg.blkSize ∣ (cfg.blockAddress addr).toNat := by
  rw [blockAddress, alignDown_toNat]
  exact Nat.dvd_mul_left _ _

theorem samePage_blockAddress (addr target : BitVec 64) :
    cfg.samePage (cfg.blockAddress addr) target = cfg.samePage addr target := by
  rw [samePage, samePage, blockAddress, alignDown_alignDown _ cfg.block_le]

theorem displaced_aligned {blkAddr : BitVec 64} {offset : Int} (block : cfg.blkSize ∣ blkAddr.toNat)
    (inPage : cfg.samePage blkAddr (blkAddr + cfg.displacement offset) = true) :
    cfg.blockAddress (blkAddr + cfg.displacement offset) = blkAddr + cfg.displacement offset := by
  rw [blockAddress_eq_iff]
  have whole : (cfg.blkSize : Int) ∣ (blkAddr.toNat : Int) + cfg.distance offset :=
    Int.dvd_add (Int.natCast_dvd_natCast.mpr block) (cfg.blkSize_dvd_distance offset)
  rw [← (cfg.displaced blkAddr offset).2 inPage] at whole
  exact Int.natCast_dvd_natCast.mp whole

/-! ### One candidate -/

/-- With room for half a page, one of the two directions stays in the page. -/
theorem candidate_inPage {blkAddr : BitVec 64} {offset : Int}
    (block : cfg.blkSize ∣ blkAddr.toNat) (proper : -2 ^ 31 < cfg.distance offset)
    (room : 2 * (cfg.distance offset).natAbs ≤ cfg.pageBytes) :
    ∃ target, cfg.candidate blkAddr offset = some target ∧
      cfg.blockAddress target = target ∧ cfg.samePage blkAddr target = true := by
  unfold candidate
  dsimp only
  by_cases forward : cfg.samePage blkAddr (blkAddr + cfg.displacement offset) = true
  · rw [if_pos forward]
    exact ⟨_, rfl, cfg.displaced_aligned block forward, forward⟩
  · -- forward leaves the page, so the block is in its other half
    have backward : cfg.samePage blkAddr (blkAddr + cfg.displacement (-offset)) = true := by
      rw [(cfg.displaced blkAddr offset).1] at forward
      rw [(cfg.displaced blkAddr (-offset)).1, distance_neg]
      obtain ⟨_, _, _, _⟩ := cfg.page_bounds blkAddr
      omega
    have aligned := cfg.displaced_aligned block backward
    rw [if_neg forward]
    refine ⟨_, ?_, aligned, backward⟩
    simp [backward, aligned]

/-- A block of the first page that both directions lead out of. -/
theorem exists_stuck (offset : Int) (tight : -2 ^ 31 < cfg.distance offset →
    cfg.pageBytes < 2 * (cfg.distance offset).natAbs) :
    ∃ position < cfg.pageBytes, cfg.blkSize ∣ position ∧ ∀ other, other = offset ∨ other = -offset →
        ¬ (0 ≤ (position : Int) + cfg.distance other ∧
          (position : Int) + cfg.distance other < cfg.pageBytes) := by
  have positive : 0 < cfg.pageBytes := Nat.two_pow_pos _
  have bounds := cfg.distance_bounds offset
  have neg := cfg.distance_neg offset
  by_cases least : cfg.distance offset = -2 ^ 31
  · refine ⟨0, positive, Nat.dvd_zero _, ?_⟩
    rintro other (rfl | rfl) <;> omega
  · -- the block that lies as far from the end of the page as the offset leads
    refine ⟨cfg.pageBytes - (cfg.distance offset).natAbs, by omega, ?_, ?_⟩
    · have blocks : cfg.blkSize ∣ cfg.pageBytes := Nat.pow_dvd_pow 2 cfg.block_le
      exact Nat.dvd_sub blocks (Int.ofNat_dvd_left.mp (cfg.blkSize_dvd_distance offset))
    · rintro other (rfl | rfl) <;> omega

/-- Without the room, some block has no candidate. -/
theorem candidate_panics (offset : Int) (tight : -2 ^ 31 < cfg.distance offset →
    cfg.pageBytes < 2 * (cfg.distance offset).natAbs) :
    ∃ addr, cfg.candidate (cfg.blockAddress addr) offset = none := by
  obtain ⟨position, inside, block, out⟩ := cfg.exists_stuck offset tight
  have half : cfg.pageBytes ≤ 2 ^ 63 :=
    Nat.pow_le_pow_right (by decide) (Nat.le_of_lt_succ cfg.page_fits)
  have number : (BitVec.ofNat 64 position).toNat = position := by
    rw [BitVec.toNat_ofNat]
    exact Nat.mod_eq_of_lt (by omega)
  have leaves (other : Int) (direction : other = offset ∨ other = -offset) :
      cfg.samePage (.ofNat 64 position) (.ofNat 64 position + cfg.displacement other) =
        false := by
    have first : cfg.page (.ofNat 64 position) = 0 := by
      rw [page, number, Nat.div_eq_of_lt inside, Nat.zero_mul]
    rw [← Bool.not_eq_true, (cfg.displaced _ other).1, number, first]
    simpa using out other direction
  refine ⟨.ofNat 64 position, ?_⟩
  rw [(cfg.blockAddress_eq_iff _).mpr (number.symm ▸ block)]
  simp [candidate, leaves offset (.inl rfl), leaves (-offset) (.inr rfl)]

/-! ### All candidates -/

/-- Draw by draw, as the loop goes. -/
theorem calculatePrefetch_inPage (room : cfg.HalfPage) (addr : BitVec 64) (draws : List Int)
    (drawn : ∀ offset ∈ draws, cfg.Drawn offset) :
    ∃ targets, cfg.calculatePrefetch addr draws = some targets ∧
      ∀ target ∈ targets, cfg.blockAddress target = target ∧
        cfg.samePage (cfg.blockAddress addr) target = true := by
  induction draws with
  | nil => exact ⟨[], rfl, fun target nothing => by cases nothing⟩
  | cons offset _ ih =>
    have possible := drawn offset List.mem_cons_self
    obtain ⟨target, made, fine⟩ := cfg.candidate_inPage (cfg.blkSize_dvd_blockAddress addr)
      (room offset possible).1 (room offset possible).2
    obtain ⟨targets, others, allFine⟩ :=
      ih fun other mem => drawn other (List.mem_cons_of_mem offset mem)
    refine ⟨target :: targets, ?_, ?_⟩
    · rw [calculatePrefetch] at others ⊢
      simp [List.mapM_cons, made, others]
    · exact List.forall_mem_cons.mpr ⟨fine, allFine⟩

end RandomFillParams

open RandomFillParams in
/-- The candidates stay in the page for every access and every draw exactly when no shifted offset
spans more than half a page or is the least `int`. -/
theorem randomFill_stays_iff (cfg : RandomFillParams) : cfg.StaysInPage ↔ cfg.HalfPage := by
  constructor
  · intro stays offset drawn
    refine Decidable.byContradiction fun tight => ?_
    obtain ⟨addr, panics⟩ := cfg.candidate_panics offset fun proper =>
      Nat.lt_of_not_le fun room => tight ⟨proper, room⟩
    obtain ⟨_, made, _⟩ := stays addr [offset] (by simpa using drawn)
    simp [calculatePrefetch, panics] at made
  · intro room addr draws drawn
    obtain ⟨targets, made, fine⟩ := cfg.calculatePrefetch_inPage room addr draws drawn
    refine ⟨targets, made, fun target mem => ?_⟩
    obtain ⟨aligned, inPage⟩ := fine target mem
    refine ⟨aligned, inPage, ?_⟩
    rw [insertPanics, ← samePage_blockAddress, inPage]
    rfl

namespace RandomFillParams

/-- Blocks of 64 bytes in pages of 4 KiB, and the widest window. -/
def commonLines : RandomFillParams where
  lBlkSize := 6
  lPageBytes := 12
  lowRange := -32
  highRange := 32
  block_fits := by decide
  page_fits := by decide
  block_le := by decide
  low_bound := by decide
  high_bound := by decide
  ordered := by decide

/-- Blocks of 128 bytes in pages of 4 KiB. -/
def longLines : RandomFillParams :=
  { commonLines with lBlkSize := 7, block_fits := by decide, block_le := by decide }

/-- Blocks so large that the shift of an offset is no longer an `int`. -/
def hugeLines : RandomFillParams :=
  { commonLines with
    lBlkSize := 26
    lPageBytes := 32
    block_fits := by decide
    page_fits := by decide
    block_le := by decide }

end RandomFillParams

theorem randomFill_stays_iff_commonLines : RandomFillParams.commonLines.StaysInPage := by
  refine (randomFill_stays_iff _).mpr ?_
  rintro offset ⟨low, high⟩
  have low : -32 ≤ offset := low
  have high : offset ≤ 32 := high
  show -2 ^ 31 < (offset * 64).bmod (2 ^ 32) ∧ 2 * ((offset * 64).bmod (2 ^ 32)).natAbs ≤ 4096
  rw [Int.bmod_def]
  omega

/-- With 32 blocks to a page, the block in the middle has no candidate 32 blocks
away. With 64, the shift can overflow. -/
theorem randomFill_panics : RandomFillParams.longLines.calculatePrefetch 2048#64 [32] = none ∧
      ¬ RandomFillParams.longLines.StaysInPage ∧
      RandomFillParams.hugeLines.calculatePrefetch 0#64 [32] = none ∧
      ¬ RandomFillParams.hugeLines.StaysInPage := by
  have long : RandomFillParams.longLines.calculatePrefetch 2048#64 [32] = none := by
    decide +kernel
  have huge : RandomFillParams.hugeLines.calculatePrefetch 0#64 [32] = none := by
    decide +kernel
  refine ⟨long, ?_, huge, ?_⟩
  · intro stays
    obtain ⟨_, made, _⟩ := stays 2048#64 [32]
      (by simp [RandomFillParams.Drawn, RandomFillParams.longLines, RandomFillParams.commonLines])
    rw [long] at made
    cases made
  · intro stays
    obtain ⟨_, made, _⟩ := stays 0#64 [32]
      (by simp [RandomFillParams.Drawn, RandomFillParams.hugeLines, RandomFillParams.commonLines])
    rw [huge] at made
    cases made

end RasCache.Mem
