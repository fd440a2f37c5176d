import RasCache.Mem.NewRandTag

/-!
# Fills of a cache with the remapped tag store

The part of the cache that `BaseCache::handleFill` looks at: the tag store and the
outstanding misses. A miss waits under its block address, secure bit and domain,
as everywhere in the cache, while a lookup in `NewRandTag` leaves the domain out.

`fills_asserted_iff` says at which responses the assertions of `handleFill` hold, by a
ledger of the misses and writebacks that put the lines there.
-/
namespace RasCache.Mem

open Function

/-- The tags and the lines that have an MSHR. -/
structure RandCache (cfg : RandParams) where
  tags : NewRandTag cfg
  mshrs : List LineKey

/-- The block that a fill uses, the address `regenerateBlkAddr` gives for it, and
the cache at that point. -/
structure RandFill (cfg : RandParams) where
  blk : RandBlk
  blkAddr : Addr
  cache : RandCache cfg

/-- The assertions of `handleFill` on its block. -/
def RandFill.asserted {cfg : RandParams} (fill : RandFill cfg) (key : LineKey) : Bool :=
  fill.blk.valid && decide (fill.blk.secure = key.isSecure) &&
    decide (fill.blk.domainID = key.domainID) && decide (fill.blkAddr = key.blkAddr)

namespace RandCache

variable {cfg : RandParams}

def start (indexBits : Fin cfg.numBlocks → Addr) : RandCache cfg where
  tags := .init indexBits
  mshrs := []

def regenerateBlkAddr (cache : RandCache cfg) (way : Fin cfg.numBlocks) : Addr :=
  cfg.regenerateAddr (cache.tags.blk way).tag (cache.tags.blk way).indexBits

/-- `handleEvictions` gives up when the victim has a miss of its own. -/
def evictable (cache : RandCache cfg) (victim : Fin cfg.numBlocks) : Bool :=
  let blk := cache.tags.blk victim
  !(blk.valid && decide (⟨cache.regenerateBlkAddr victim, blk.secure, blk.domainID⟩ ∈ cache.mshrs))

/-- `allocateBlock`: the block that now holds the line, if one could be freed. -/
def allocateBlock (cache : RandCache cfg) (addr : Addr) (isSecure : Bool) (domainID : DomainID)
    (random : Nat) : Option (Option (Fin cfg.numBlocks) × RandCache cfg) :=
  (cache.tags.findVictim addr isSecure random).bind fun victim =>
    if cache.evictable victim then
      (cache.tags.replaceBlock addr isSecure domainID victim).map fun tags =>
        (some victim, { cache with tags })
    else some (none, cache)

def useBlock (cache : RandCache cfg) (way : Fin cfg.numBlocks) : RandFill cfg where
  blk := cache.tags.blk way
  blkAddr := cache.regenerateBlkAddr way
  cache := cache

/-- The temporary block, which keeps the address of the response. -/
def useTempBlock (cache : RandCache cfg) (key : LineKey) : RandFill cfg where
  blk := ⟨true, key.isSecure, cfg.extractTag key.blkAddr, cfg.extractIndex key.blkAddr,
    key.domainID⟩
  blkAddr := key.blkAddr
  cache := cache

/-- The block of a fill: the one found, the one allocated, or the temporary one. -/
def fillBlock (cache : RandCache cfg) (key : LineKey) (allocate : Bool) (random : Nat) :
    Option (RandFill cfg) :=
  match cache.tags.findBlock key.blkAddr key.isSecure key.domainID with
  | some way => some (cache.useBlock way)
  | none =>
    if allocate then
      (cache.allocateBlock key.blkAddr key.isSecure key.domainID random).map fun allocated =>
        match allocated.1 with
        | some way => allocated.2.useBlock way
        | none => allocated.2.useTempBlock key
    else some (cache.useTempBlock key)

def handleFill (cache : RandCache cfg) (key : LineKey) (allocate : Bool) (random : Nat) :
    Option (RandCache cfg) :=
  (cache.fillBlock key allocate random).bind fun fill =>
    if fill.asserted key then some fill.cache else none

/-- What happens to the cache. A request that misses waits in the MSHR of its
line; a response fills, and its MSHR stays if deferred targets were promoted; a
writeback from above allocates a block if none is found; a block is evicted or
invalidated. -/
inductive Event (cfg : RandParams) where
  | miss (addr : Addr) (isSecure : Bool) (domainID : DomainID)
  | fill (key : LineKey) (allocate : Bool) (random : Nat) (promoted : Bool)
  | writeback (addr : Addr) (isSecure : Bool) (domainID : DomainID) (random : Nat)
  | evict (way : Fin cfg.numBlocks)

def step (cache : RandCache cfg) : Event cfg → Option (RandCache cfg)
  | .miss addr isSecure domainID =>
    some { cache with
      mshrs := cache.mshrs.insert ⟨Packet.blkAlign addr cfg.blkSize, isSecure, domainID⟩ }
  | .fill key allocate random promoted =>
    if key ∈ cache.mshrs then
      (cache.handleFill key allocate random).map fun after =>
        if promoted then after else { after with mshrs := after.mshrs.erase key }
    else none
  | .writeback addr isSecure domainID random =>
    match cache.tags.findBlock addr isSecure domainID with
    | some _ => some cache
    | none => (cache.allocateBlock addr isSecure domainID random).map Prod.snd
  | .evict way => some { cache with tags := cache.tags.invalidate way }

/-- When a response is handled, the assertions of `handleFill` hold. -/
def FillAsserted (cache : RandCache cfg) : Event cfg → Prop
  | .fill key allocate random _ =>
    key ∈ cache.mshrs → ∃ fill, cache.fillBlock key allocate random = some fill ∧
      fill.asserted key = true
  | _ => True

/-! ### Who put a line there -/

/-- The line that a request is for. -/
def Event.asks : Event cfg → Option LineKey
  | .miss addr isSecure domainID | .writeback addr isSecure domainID _ =>
    some ⟨Packet.blkAlign addr cfg.blkSize, isSecure, domainID⟩
  | _ => none

/-- The way that a line gets when it is not found. -/
def allocatedWay (cache : RandCache cfg) (addr : Addr) (isSecure : Bool) (domainID : DomainID)
    (random : Nat) : Option (Fin cfg.numBlocks) :=
  match cache.tags.findBlock addr isSecure domainID with
  | some _ => none
  | none => (cache.allocateBlock addr isSecure domainID random).bind Prod.fst

/-- The way that an event changes, with the line that it puts there: the one of a miss that is
filled, the one of a writeback, or none. -/
def written (cache : RandCache cfg) : Event cfg → Option (Fin cfg.numBlocks × Option LineKey)
  | .miss .. => none
  | .fill key allocate random _ =>
    if allocate then
      (cache.allocatedWay key.blkAddr key.isSecure key.domainID random).map (·, some key)
    else none
  | .writeback addr isSecure domainID random =>
    (cache.allocatedWay addr isSecure domainID random).map
      (·, some ⟨Packet.blkAlign addr cfg.blkSize, isSecure, domainID⟩)
  | .evict way => some (way, none)

/-- The cache with a ledger, which no step reads: the line that the last miss or writeback put into
each way. -/
structure Ledgered (cfg : RandParams) where
  cache : RandCache cfg
  ledger : Fin cfg.numBlocks → Option LineKey

namespace Ledgered

def start (indexBits : Fin cfg.numBlocks → Addr) : Ledgered cfg where
  cache := .start indexBits
  ledger := fun _ => none

def step (s : Ledgered cfg) (e : Event cfg) : Option (Ledgered cfg) :=
  (s.cache.step e).map fun cache =>
    { cache
      ledger := match s.cache.written e with
        | some (way, line) => update s.ledger way line
        | none => s.ledger }

/-- A line that is there when its response is handled was put there by a miss or a writeback of
the same domain. -/
def PutByDomain (s : Ledgered cfg) : Event cfg → Prop
  | .fill key _ _ _ =>
    key ∈ s.cache.mshrs → ∀ way line, s.ledger way = some line → line.blkAddr = key.blkAddr →
      line.isSecure = key.isSecure → line.domainID = key.domainID
  | _ => True

end Ledgered

/-- The index bits are unique, and misses wait under block addresses. -/
structure Formed (cache : RandCache cfg) : Prop where
  unique : cache.tags.Unique
  aligned : ∀ key ∈ cache.mshrs, cfg.blkSize ∣ key.blkAddr

/-! ### Allocation -/

/-- What an allocation makes of the tags. -/
inductive Allocated (tags : NewRandTag cfg) (addr : Addr) (isSecure : Bool)
    (domainID : DomainID) : Option (Fin cfg.numBlocks) → NewRandTag cfg → Prop
  | refused : Allocated tags addr isSecure domainID none tags
  | placed (way : Fin cfg.numBlocks) (after : NewRandTag cfg) (unique : after.Unique)
      (new : after.blk way = cfg.newBlk addr isSecure domainID)
      (others : ∀ other, other ≠ way → after.blk other = tags.blk other) :
      Allocated tags addr isSecure domainID (some way) after

variable {cache after : RandCache cfg} {key : LineKey} {addr : Addr} {isSecure : Bool}
  {domainID : DomainID}

theorem allocatedWay_found (random : Nat)
    (found : (cache.tags.findBlock addr isSecure domainID).isSome) :
    cache.allocatedWay addr isSecure domainID random = none := by
  obtain ⟨way, found⟩ := Option.isSome_iff_exists.mp found
  rw [allocatedWay, found]

/-- After a lookup that missed, an allocation passes the assertions on its way. -/
theorem Formed.allocateBlock (formed : cache.Formed) (random : Nat)
    (missed : cache.tags.findBlock addr isSecure domainID = none) :
    ∃ tags, cache.allocateBlock addr isSecure domainID random =
        some (cache.allocatedWay addr isSecure domainID random, { cache with tags }) ∧
      Allocated cache.tags addr isSecure domainID
        (cache.allocatedWay addr isSecure domainID random) tags := by
  obtain ⟨victim, tags, chosen, replaced, new, others, unique, _⟩ :=
    formed.unique.allocate addr isSecure domainID random missed
  rw [allocatedWay, missed]
  dsimp only
  unfold RandCache.allocateBlock
  rw [chosen, Option.bind_some]
  split
  · rw [replaced]
    exact ⟨tags, rfl, .placed victim tags unique new others⟩
  · exact ⟨cache.tags, rfl, .refused⟩

theorem newBlk_blkAlign (cfg : RandParams) (addr : Addr) (isSecure : Bool) (domainID : DomainID) :
    cfg.newBlk (Packet.blkAlign addr cfg.blkSize) isSecure domainID =
      cfg.newBlk addr isSecure domainID := by
  have fields (more : Nat) : Packet.blkAlign addr cfg.blkSize >>> (cfg.setShift + more) =
      addr >>> (cfg.setShift + more) := by
    have whole : Packet.blkAlign addr cfg.blkSize = cfg.blkSize * (addr / cfg.blkSize) :=
      Nat.sub_eq_of_eq_add (Nat.div_add_mod addr cfg.blkSize).symm
    rw [whole, Nat.shiftRight_eq_div_pow, Nat.shiftRight_eq_div_pow, Nat.pow_add,
      ← Nat.div_div_eq_div_mul addr]
    exact Nat.mul_div_mul_left _ _ (Nat.two_pow_pos _)
  rw [RandParams.newBlk, RandParams.newBlk, RandParams.extractTag, RandParams.extractTag,
    RandParams.extractIndex, RandParams.extractIndex, fields]
  exact congrArg (fun line => RandBlk.mk _ _ _ (line &&& _) _) (fields 0)

theorem Allocated.blkAlign {tags after : NewRandTag cfg} {way : Option (Fin cfg.numBlocks)}
    (allocated : Allocated tags addr isSecure domainID way after) :
    Allocated tags (Packet.blkAlign addr cfg.blkSize) isSecure domainID way after := by
  cases allocated with
  | refused => exact .refused
  | placed way _ unique new others =>
    exact .placed way _ unique (new.trans (newBlk_blkAlign ..).symm) others

/-! ### The assertions -/

/-- A block that a lookup of the line finds passes every assertion but the one on
the domain. -/
theorem useBlock_asserted_iff (narrow : cfg.Narrow) {way : Fin cfg.numBlocks}
    (aligned : cfg.blkSize ∣ key.blkAddr)
    (found : cache.tags.findBlock key.blkAddr key.isSecure key.domainID = some way) :
    (cache.useBlock way).asserted key = true ↔ (cache.tags.blk way).domainID = key.domainID := by
  have held := NewRandTag.findBlock_holds found
  rw [RandBlk.holds_iff, RandBlk.matchIndex_iff] at held
  obtain ⟨⟨valid, index, secure⟩, tag⟩ := held
  have regenerated : (cache.useBlock way).blkAddr = key.blkAddr := by
    unfold useBlock regenerateBlkAddr
    rw [tag, index]
    exact narrow.regenerateAddr_extract aligned
  simp only [RandFill.asserted, Bool.and_eq_true, decide_eq_true_eq]
  constructor
  · intro asserted
    exact asserted.1.2
  · intro domain
    exact ⟨⟨⟨valid, secure⟩, domain⟩, regenerated⟩

theorem useTempBlock_asserted (cache : RandCache cfg) (key : LineKey) :
    (cache.useTempBlock key).asserted key = true := by
  simp [RandFill.asserted, useTempBlock]

section

variable (formed : cache.Formed)
include formed

/-- The tags that a fill leaves. A line that was missing passes the assertions. -/
theorem fillBlock_spec (key : LineKey) (allocate : Bool) (random : Nat) :
    ∃ fill tags, cache.fillBlock key allocate random = some fill ∧
      fill.cache = { cache with tags } ∧
      Allocated cache.tags key.blkAddr key.isSecure key.domainID (if allocate then
        cache.allocatedWay key.blkAddr key.isSecure key.domainID random else none) tags ∧
      (cfg.Narrow → cfg.blkSize ∣ key.blkAddr →
        cache.tags.findBlock key.blkAddr key.isSecure key.domainID = none →
          fill.asserted key = true) := by
  unfold fillBlock
  cases found : cache.tags.findBlock key.blkAddr key.isSecure key.domainID with
  | some way =>
    rw [allocatedWay_found random (found ▸ rfl), ite_self]
    exact ⟨cache.useBlock way, cache.tags, rfl, rfl, .refused, nofun⟩
  | none =>
    cases allocate with
    | false =>
      exact ⟨_, _, rfl, rfl, .refused, fun _ _ _ => useTempBlock_asserted cache key⟩
    | true =>
      obtain ⟨_, ret, allocated⟩ := formed.allocateBlock random found
      simp only [if_true, ret, Option.map_some]
      generalize cache.allocatedWay key.blkAddr key.isSecure key.domainID random = way at allocated
      cases allocated with
      | refused =>
        exact ⟨_, _, rfl, rfl, .refused, fun _ _ _ => useTempBlock_asserted cache key⟩
      | placed way _ unique new others =>
        refine ⟨_, _, rfl, rfl, .placed way _ unique new others, fun narrow aligned _ => ?_⟩
        have found := unique.findBlock_eq key.blkAddr key.isSecure key.domainID way (by
          simp [new, RandParams.newBlk, RandBlk.holds])
        exact (useBlock_asserted_iff narrow aligned found).mpr (by rw [new]; rfl)

/-- The assertions hold exactly if the block found, when one is, has the domain of
the response. -/
theorem Formed.asserted_iff (narrow : cfg.Narrow) (waits : key ∈ cache.mshrs) (allocate : Bool)
    (random : Nat) :
    (∃ fill, cache.fillBlock key allocate random = some fill ∧ fill.asserted key = true) ↔
      ∀ way, cache.tags.findBlock key.blkAddr key.isSecure key.domainID = some way →
        (cache.tags.blk way).domainID = key.domainID := by
  have aligned := formed.aligned key waits
  -- a missing line gets a new block, which has the domain of the fill
  cases found : cache.tags.findBlock key.blkAddr key.isSecure key.domainID with
  | none =>
    obtain ⟨fill, _, ret, _, _, asserted⟩ := fillBlock_spec formed key allocate random
    exact ⟨fun _ => nofun, fun _ => ⟨fill, ret, asserted narrow aligned found⟩⟩
  | some way =>
    -- the lookup does not compare the domain, so that assertion is what is left
    have ret : cache.fillBlock key allocate random = some (cache.useBlock way) := by
      rw [fillBlock, found]
    rw [ret]
    simp only [Option.some.injEq, exists_eq_left', forall_eq']
    exact useBlock_asserted_iff narrow aligned found

/-! ### What a step changes -/

/-- What an event leaves: the tags after an allocation of the line that is filled or written back,
or without a block. -/
inductive Changed (cache : RandCache cfg) (e : Event cfg) : RandCache cfg → Prop
  | allocated (key : LineKey) (way : Option (Fin cfg.numBlocks)) (tags : NewRandTag cfg)
      (mshrs : List LineKey) (written : cache.written e = way.map (·, some key))
      (source : key ∈ cache.mshrs ∨ e.asks = some key)
      (allocated : Allocated cache.tags key.blkAddr key.isSecure key.domainID way tags)
      (asked : ∀ other ∈ mshrs, other ∈ cache.mshrs ∨ e.asks = some other) :
        Changed cache e ⟨tags, mshrs⟩
  | evicted (way : Fin cfg.numBlocks) (written : cache.written e = some (way, none)) :
      Changed cache e { cache with tags := cache.tags.invalidate way }

theorem Formed.changed {e : Event cfg} (taken : cache.step e = some after) :
    cache.Changed e after := by
  cases e with
  | miss addr =>
    cases taken
    refine .allocated _ none _ _ rfl (.inr rfl) .refused fun other mem => ?_
    rcases List.mem_insert_iff.mp mem with rfl | mem
    · exact .inr rfl
    · exact .inl mem
  | fill key allocate random promoted =>
    simp only [RandCache.step] at taken
    split at taken
    next waits =>
      obtain ⟨_, handled, rfl⟩ := Option.map_eq_some_iff.mp taken
      obtain ⟨_, tags, ret, isCache, allocated, _⟩ := fillBlock_spec formed key allocate random
      rw [handleFill, ret, Option.bind_some] at handled
      split at handled <;> cases handled
      have written : cache.written (.fill key allocate random promoted) = (if allocate then
          cache.allocatedWay key.blkAddr key.isSecure key.domainID random else none).map
            (·, some key) := by
        cases allocate <;> rfl
      rw [isCache]
      split
      · exact .allocated key _ tags _ written (.inl waits) allocated fun _ => .inl
      · exact .allocated key _ tags _ written (.inl waits) allocated fun _ mem =>
          .inl (List.mem_of_mem_erase mem)
    next => cases taken
  | writeback addr isSecure domainID random =>
    simp only [RandCache.step] at taken
    split at taken
    next found =>
      cases taken
      refine .allocated _ none _ _ ?_ (.inr rfl) .refused fun _ => .inl
      rw [written, allocatedWay_found random (found ▸ rfl)]
    next missed =>
      obtain ⟨tags, ret, allocated⟩ := formed.allocateBlock random missed
      rw [ret] at taken
      cases taken
      exact .allocated _ _ tags _ rfl (.inr rfl) allocated.blkAlign fun _ => .inl
  | evict way =>
    cases taken
    exact .evicted way rfl

end

/-- Every line that is asked for is a block. -/
theorem Event.aligned {e : Event cfg} (asks : e.asks = some key) : cfg.blkSize ∣ key.blkAddr := by
  cases e with
  | miss addr | writeback addr =>
    cases asks
    exact Nat.dvd_sub_mod addr
  | fill | evict => cases asks

theorem Changed.formed {e : Event cfg} (changed : cache.Changed e after) (formed : cache.Formed) :
    after.Formed := by
  cases changed with
  | allocated _ _ _ _ _ _ allocated asked =>
    refine ⟨?_, fun other mem => (asked other mem).elim (formed.aligned other) Event.aligned⟩
    cases allocated with
    | refused => exact formed.unique
    | placed _ _ unique => exact unique
  | evicted way => exact ⟨formed.unique.invalidate way, formed.aligned⟩

/-! ### The ledger -/

/-- The block of an entry of the ledger. -/
def Entered (cfg : RandParams) (blk : RandBlk) : Option LineKey → Prop
  | none => blk.valid = false
  | some line => cfg.blkSize ∣ line.blkAddr ∧
      blk = cfg.newBlk line.blkAddr line.isSecure line.domainID

namespace Ledgered

/-- The blocks are the ones of the ledger. -/
structure Tied (s : Ledgered cfg) : Prop where
  formed : s.cache.Formed
  entered : ∀ way, Entered cfg (s.cache.tags.blk way) (s.ledger way)

variable {s t : Ledgered cfg} {e : Event cfg}

theorem Tied.update (tied : s.Tied) {tags : NewRandTag cfg} {way : Fin cfg.numBlocks}
    {line : Option LineKey} (here : Entered cfg (tags.blk way) line)
    (others : ∀ other, other ≠ way → tags.blk other = s.cache.tags.blk other)
    (other : Fin cfg.numBlocks) :
    Entered cfg (tags.blk other) (update s.ledger way line other) := by
  by_cases same : other = way
  · rw [same, update_self]
    exact here
  · rw [update_of_ne same, others other same]
    exact tied.entered other

theorem Tied.step (tied : s.Tied) (taken : s.step e = some t) : t.Tied := by
  obtain ⟨after, called, rfl⟩ := Option.map_eq_some_iff.mp taken
  have changed := Formed.changed tied.formed called
  refine ⟨changed.formed tied.formed, ?_⟩
  cases changed with
  | allocated key way tags mshrs written source allocated =>
    rw [written]
    cases allocated with
    | refused => exact tied.entered
    | placed way _ _ new others =>
      exact tied.update ⟨source.elim (tied.formed.aligned key) Event.aligned, new⟩ others
  | evicted way written =>
    rw [written]
    refine tied.update ?_ fun other different => update_of_ne different _ _
    simp [Entered, NewRandTag.invalidate, RandBlk.invalidate]

/-- The block that a lookup finds is the one of the line that the ledger has. -/
theorem Tied.asserted_iff (narrow : cfg.Narrow) (tied : s.Tied) (e : Event cfg) :
    s.cache.FillAsserted e ↔ s.PutByDomain e := by
  cases e with
  | miss | writeback | evict => exact Iff.rfl
  | fill key allocate random =>
    refine imp_congr_right fun waits => ?_
    refine (Formed.asserted_iff tied.formed narrow waits allocate random).trans ?_
    constructor
    · intro domains way line there addr secure
      have entered := tied.entered way
      rw [there] at entered
      have block := entered.2
      rw [addr, secure] at block
      have found := tied.formed.unique.findBlock_eq key.blkAddr key.isSecure key.domainID way (by
        simp [block, RandParams.newBlk, RandBlk.holds])
      rw [← domains way found, block]
      rfl
    · intro put way found
      have held := NewRandTag.findBlock_holds found
      rw [RandBlk.holds_iff, RandBlk.matchIndex_iff] at held
      obtain ⟨⟨valid, index, secure⟩, tag⟩ := held
      have entered := tied.entered way
      cases there : s.ledger way with
      | none =>
        rw [there] at entered
        rw [entered] at valid
        cases valid
      | some line =>
        rw [there] at entered
        obtain ⟨aligned, block⟩ := entered
        rw [block] at index secure tag ⊢
        -- the fields give back the whole block address
        have addr : line.blkAddr = key.blkAddr := by
          rw [← narrow.regenerateAddr_extract aligned,
            ← narrow.regenerateAddr_extract (tied.formed.aligned key waits)]
          exact congrArg₂ cfg.regenerateAddr tag index
        exact put way line there addr secure

end Ledgered

/-- Over every run from the empty cache with a mask that is defined, the assertions of `handleFill`
hold at every response exactly if every line that is there when its response arrives was put there
by a miss or a writeback of the domain of the response. -/
theorem fills_asserted_iff (narrow : cfg.Narrow) (indexBits : Fin cfg.numBlocks → Addr)
    (events : List (Event cfg)) :
    Runs.Along Ledgered.step (fun s e => s.cache.FillAsserted e) (.start indexBits) events ↔
      Runs.Along Ledgered.step Ledgered.PutByDomain (.start indexBits) events := by
  have start : (Ledgered.start indexBits).Tied :=
    ⟨⟨NewRandTag.init_unique indexBits, nofun⟩, fun _ => rfl⟩
  constructor
  · exact Runs.along_of_invariant (fun s e t tied _ taken => Ledgered.Tied.step tied taken)
      (fun s e tied => (tied.asserted_iff narrow e).mp) _ events start
  · exact Runs.along_of_invariant (fun s e t tied _ taken => Ledgered.Tied.step tied taken)
      (fun s e tied => (tied.asserted_iff narrow e).mpr) _ events start

/-- Two blocks of 64 bytes and one extra index bit. -/
def twoBlocks : RandParams := ⟨2, 6, 1, 3#32, by decide, by decide⟩

/-- The line is written back by the domain that misses on it. -/
theorem fills_asserted_iff_writtenBack : twoBlocks.Narrow ∧
    Runs.Along Ledgered.step (fun s e => s.cache.FillAsserted e)
      (.start fun _ => 0 : Ledgered twoBlocks)
        [.miss 0 false 0, .writeback 0 false 0 0, .fill ⟨0, false, 0⟩ true 0 false] := by
  have narrow : twoBlocks.Narrow := show Nat.log2 2 + 1 < 32 by decide +kernel
  refine ⟨narrow, (fills_asserted_iff narrow _ _).mpr ?_⟩
  refine Runs.along_cons rfl trivial (Runs.along_cons rfl trivial ⟨?_, fun _ _ => trivial⟩)
  intro _ way line there _ _
  have entries : ∀ way : Fin 2, way = 0 ∨ way = 1 := by decide
  rcases entries way with rfl | rfl <;> cases there
  rfl

/-- Domains 0 and 1 miss on one line and each has an MSHR. The response to domain
0 installs the line, and the response to domain 1 finds that block, which fails the
assertion on the domain. -/
theorem second_domain_misfilled : ∃ (cache : RandCache twoBlocks) (fill : RandFill twoBlocks),
      Runs.run RandCache.step (start fun _ => 0)
        [.miss 0 false 0, .miss 0 false 1, .fill ⟨0, false, 0⟩ true 0 false] = some cache ∧
      ⟨0, false, 1⟩ ∈ cache.mshrs ∧ cache.fillBlock ⟨0, false, 1⟩ true 0 = some fill ∧
      fill.blk.domainID = 0 ∧ fill.asserted ⟨0, false, 1⟩ = false :=
  ⟨_, _, rfl, by decide, rfl, rfl, rfl⟩

end RandCache

end RasCache.Mem
