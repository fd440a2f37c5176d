import RasCache.Foundation.OrderedCuts
import RasCache.Foundation.Runs

/-!
# Address-range maps

Model of `AddrRangeMap` (`base/addr_range_map.hh`) for ranges that are not
interleaved: a tree of entries ordered by the start of their range, and a list of
iterators to the entries used last, which a lookup tries first. An iterator is the
number of its node, so one that is left behind when its entry is erased refers to
nothing, and using it is a failure (`none`).

The tree search looks at the entry behind the start of the query and at the one in
front of it; for disjoint ranges these two decide. `erase` of a span takes only
the first of its iterators out of the cache, so exactly the spans without another
cached entry keep the cache valid.
-/
namespace RasCache.Base

/-- A range that is valid, not empty and not interleaved. -/
structure AddrRange where
  start : Nat
  stop : Nat
  nonempty : start < stop
deriving Repr, DecidableEq

namespace AddrRange

def mergesWith (range r : AddrRange) : Bool := r.start == range.start && r.stop == range.stop

def intersects (range r : AddrRange) : Bool := !(range.start ≥ r.stop || range.stop ≤ r.start)

def isSubset (range r : AddrRange) : Bool := range.start ≥ r.start && range.stop ≤ r.stop

theorem intersects_iff (range r : AddrRange) :
    range.intersects r = true ↔ range.start < r.stop ∧ r.start < range.stop := by
  simp [intersects]

theorem isSubset_iff (range r : AddrRange) :
    range.isSubset r = true ↔ r.start ≤ range.start ∧ range.stop ≤ r.stop := by
  simp [isSubset]

end AddrRange

structure RangeEntry (V : Type) where
  node : Nat
  range : AddrRange
  value : V
deriving Repr, DecidableEq

/-- `nodes` counts the nodes made so far. -/
structure AddrRangeMap (V : Type) where
  tree : List (RangeEntry V) := []
  cache : List Nat := []
  nodes : Nat := 0
deriving Repr, DecidableEq

namespace AddrRangeMap

variable {V : Type}

/-- The entry of an iterator. -/
def deref (map : AddrRangeMap V) (it : Nat) : Option (RangeEntry V) :=
  map.tree.find? (·.node == it)

/-- The first iterator in the cache whose entry meets the condition. -/
def scanCache (map : AddrRangeMap V) (cond : AddrRange → Bool) : List Nat → Option (Option Nat)
  | [] => some none
  | it :: rest => do
      let entry ← map.deref it
      if cond entry.range then some (some it) else map.scanCache cond rest

/-- The loop of `find` from an entry backwards. -/
def scanBack (cond : AddrRange → Bool) : List (RangeEntry V) → Option (RangeEntry V)
  | [] => none
  | i :: rest =>
      if cond i.range then some i
      else if rest.head?.any fun next => next.range.mergesWith i.range then scanBack cond rest
      else none

/-- The search in the tree, from `upper_bound` on. -/
def search (map : AddrRangeMap V) (r : AddrRange) (cond : AddrRange → Bool) :
    Option (RangeEntry V) :=
  match (map.tree.dropWhile (·.range.start ≤ r.start)).head?.filter (cond ·.range) with
  | some next => some next
  | none => scanBack cond (map.tree.takeWhile (·.range.start ≤ r.start)).reverse

section
variable (maxCacheSize : Nat)

/-- A full cache gives up its last iterator. -/
def addNewEntryToCache (map : AddrRangeMap V) (it : Nat) : AddrRangeMap V :=
  if maxCacheSize = 0 then map
  else if map.cache.length ≥ maxCacheSize then { map with cache := it :: map.cache.dropLast }
  else { map with cache := it :: map.cache }

def find (map : AddrRangeMap V) (r : AddrRange) (cond : AddrRange → Bool) :
    Option (AddrRangeMap V × Option Nat) := do
  match ← map.scanCache cond map.cache with
  | some it => some ({ map with cache := it :: map.cache.erase it }, some it)
  | none =>
      match map.search r cond with
      | some entry => some (map.addNewEntryToCache maxCacheSize entry.node, some entry.node)
      | none => some (map, none)

def contains (map : AddrRangeMap V) (r : AddrRange) : Option (AddrRangeMap V × Option Nat) :=
  map.find maxCacheSize r r.isSubset

def intersects (map : AddrRangeMap V) (r : AddrRange) : Option (AddrRangeMap V × Option Nat) :=
  map.find maxCacheSize r r.intersects

/-- `std::map::insert`: a key that is there already stays. -/
def treeInsert (map : AddrRangeMap V) (r : AddrRange) (d : V) : AddrRangeMap V × Nat :=
  let before := map.tree.takeWhile (·.range.start < r.start)
  let after := map.tree.dropWhile (·.range.start < r.start)
  match after.head?.filter (·.range.start == r.start) with
  | some entry => (map, entry.node)
  | none =>
      ({ map with tree := before ++ ⟨map.nodes, r, d⟩ :: after, nodes := map.nodes + 1 }, map.nodes)

def insert (map : AddrRangeMap V) (r : AddrRange) (d : V) :
    Option (AddrRangeMap V × Option Nat) := do
  let (map, found) ← map.intersects maxCacheSize r
  if found.isSome then some (map, none)
  else
    let (map, it) := map.treeInsert r d
    some (map, some it)

end

/-- The iterators `p` of `erase` and `[p, q)` of `erase` of a span have to be valid;
`end()` is `none`. -/
def eraseOne (map : AddrRangeMap V) (p : Nat) : Option (AddrRangeMap V) := do
  let _ ← map.deref p
  some { map with cache := map.cache.filter (· ≠ p), tree := map.tree.filter (·.node ≠ p) }

/-- The entries from `p` up to `q`. -/
def span (map : AddrRangeMap V) (p q : Option Nat) : Option (List (RangeEntry V)) :=
  let behind := map.tree.dropWhile fun entry => some entry.node ≠ p
  if (p = none ∨ behind ≠ []) ∧ (q = none ∨ ∃ entry ∈ behind, some entry.node = q) then
    some (behind.takeWhile fun entry => some entry.node ≠ q)
  else none

/-- The loop over the span removes the iterator `p` each time. -/
def eraseSpan (map : AddrRangeMap V) (p q : Option Nat) : Option (AddrRangeMap V) := do
  let span ← map.span p q
  some { map with
    cache := span.foldl (fun cache _ => cache.filter (some · ≠ p)) map.cache
    tree := map.tree.filter fun entry => entry.node ∉ span.map (·.node) }

def clear (map : AddrRangeMap V) : AddrRangeMap V := { map with cache := [], tree := [] }

inductive Call (V : Type)
  | insert (r : AddrRange) (d : V)
  | erase (p : Nat)
  | eraseSpan (p q : Option Nat)
  | clear
  | contains (r : AddrRange)
  | intersects (r : AddrRange)

def step (maxCacheSize : Nat) (map : AddrRangeMap V) : Call V → Option (AddrRangeMap V)
  | .insert r d => (map.insert maxCacheSize r d).map Prod.fst
  | .erase p => map.eraseOne p
  | .eraseSpan p q => map.eraseSpan p q
  | .clear => some map.clear
  | .contains r => (map.contains maxCacheSize r).map Prod.fst
  | .intersects r => (map.intersects maxCacheSize r).map Prod.fst

/-! ### Invariants -/

/-- Every iterator in the cache refers to an entry. -/
def Cached (map : AddrRangeMap V) : Prop := ∀ it ∈ map.cache, ∃ entry ∈ map.tree, entry.node = it

/-- What no call breaks. -/
structure Formed (maxCacheSize : Nat) (map : AddrRangeMap V) : Prop where
  ordered : map.tree.Pairwise fun a b => a.range.stop ≤ b.range.start
  fresh : ∀ entry ∈ map.tree, entry.node < map.nodes
  distinct : map.tree.Pairwise fun a b => a.node ≠ b.node
  bounded : map.cache.length ≤ maxCacheSize

variable {map : AddrRangeMap V} {it : Nat} {entry : RangeEntry V} {cond : AddrRange → Bool}
  {r : AddrRange}

theorem deref_some (found : map.deref it = some entry) : entry ∈ map.tree ∧ entry.node = it :=
  ⟨List.mem_of_find?_eq_some found, by simpa using List.find?_some found⟩

theorem exists_deref (held : ∃ entry ∈ map.tree, entry.node = it) :
    ∃ entry, map.deref it = some entry := by
  rw [← Option.isSome_iff_exists, deref, List.find?_isSome]
  obtain ⟨entry, mem, rfl⟩ := held
  exact ⟨entry, mem, by simp⟩

variable {cache : List Nat}

theorem scanCache_total (cond : AddrRange → Bool)
    (cached : ∀ it ∈ cache, ∃ entry ∈ map.tree, entry.node = it) :
    ∃ hit, map.scanCache cond cache = some hit := by
  induction cache with
  | nil => exact ⟨none, rfl⟩
  | cons it _ ih =>
    obtain ⟨_, found⟩ := exists_deref (cached it (by simp))
    simp only [scanCache, found, Option.bind_eq_bind, Option.bind_some]
    split
    · exact ⟨_, rfl⟩
    · exact ih fun it mem => cached it (by simp [mem])

theorem scanCache_hit (hit : map.scanCache cond cache = some (some it)) :
    it ∈ cache ∧ ∃ entry ∈ map.tree, entry.node = it ∧ cond entry.range = true := by
  induction cache with
  | nil => cases hit
  | cons _ rest ih =>
    obtain ⟨entry, found, hit⟩ := Option.bind_eq_some_iff.mp hit
    split at hit
    next meets =>
      cases hit
      exact ⟨by simp, entry, (deref_some found).1, (deref_some found).2, meets⟩
    next =>
      obtain ⟨mem, rest⟩ := ih hit
      exact ⟨by simp [mem], rest⟩

/-! ### The search -/

/-- A condition on the ranges for which the neighbours of `r` decide. -/
structure Local (r : AddrRange) (cond : AddrRange → Bool) : Prop where
  reaches : ∀ a, cond a = true → a.start ≤ r.start → r.start < a.stop
  nearer : ∀ a b, cond b = true → r.start < a.start → a.stop ≤ b.start → cond a = true

theorem local_isSubset (r : AddrRange) : Local r r.isSubset where
  reaches a holds _ := by
    have := (r.isSubset_iff a).mp holds
    have := r.nonempty
    omega
  nearer a b holds _ _ := by
    have := (r.isSubset_iff b).mp holds
    have := a.nonempty
    omega

theorem local_intersects (r : AddrRange) : Local r r.intersects where
  reaches a holds _ := ((r.intersects_iff a).mp holds).1
  nearer a b holds _ _ := by
    have := (r.intersects_iff b).mp holds
    have := a.nonempty
    exact (r.intersects_iff a).mpr (by omega)

theorem scanBack_some {list : List (RangeEntry V)} (found : scanBack cond list = some entry) :
    entry ∈ list ∧ cond entry.range = true := by
  induction list with
  | nil => cases found
  | cons _ _ ih =>
    simp only [scanBack] at found
    split_ifs at found with meets
    · cases found
      exact ⟨by simp, meets⟩
    · exact ⟨List.mem_cons_of_mem _ (ih found).1, (ih found).2⟩

theorem search_some (found : map.search r cond = some entry) :
    entry ∈ map.tree ∧ cond entry.range = true := by
  simp only [search] at found
  split at found
  next above =>
    cases found
    obtain ⟨first, meets⟩ := Option.filter_eq_some_iff.mp above
    exact ⟨(List.dropWhile_sublist _).mem (List.mem_of_mem_head? first), meets⟩
  next =>
    obtain ⟨mem, meets⟩ := scanBack_some found
    exact ⟨(List.takeWhile_sublist _).mem (List.mem_reverse.mp mem), meets⟩

theorem none_of_search (ordered : map.tree.Pairwise fun a b => a.range.stop ≤ b.range.start)
    (neighbours : Local r cond) (missed : map.search r cond = none) :
    ∀ entry ∈ map.tree, cond entry.range = false := by
  intro entry mem
  by_contra holds
  rw [Bool.not_eq_false] at holds
  obtain ⟨upper, lower⟩ : (map.tree.dropWhile (·.range.start ≤ r.start)).head?.filter
        (cond ·.range) = none ∧
      scanBack cond (map.tree.takeWhile (·.range.start ≤ r.start)).reverse = none := by
    simp only [search] at missed
    split at missed
    next => cases missed
    next upper => exact ⟨upper, missed⟩
  generalize map.tree = tree at *
  rcases OrderedCuts.mem_cut (p := (·.range.start ≤ r.start)) mem with front | behind
  · -- the last entry in front of the start would end behind `entry`
    have last_before := List.pairwise_reverse.mpr
      (ordered.sublist (List.takeWhile_sublist (·.range.start ≤ r.start)))
    rw [← List.mem_reverse] at front
    have starts (e) (inside : e ∈ (tree.takeWhile (·.range.start ≤ r.start)).reverse) :
        e.range.start ≤ r.start := by
      simpa using List.mem_takeWhile_imp (List.mem_reverse.mp inside)
    generalize (tree.takeWhile (·.range.start ≤ r.start)).reverse = list at *
    cases list with
    | nil => cases front
    | cons i =>
      rcases List.mem_cons.mp front with rfl | earlier
      · simp [scanBack, holds] at lower
      · have := neighbours.reaches _ holds (starts entry front)
        have := (List.pairwise_cons.mp last_before).1 entry earlier
        have := starts i (by simp)
        omega
  · have next_first := ordered.sublist (List.dropWhile_sublist (·.range.start ≤ r.start))
    have starts := OrderedCuts.not_of_mem_dropWhile ordered
      (p := fun e : RangeEntry V => e.range.start ≤ r.start) fun a b before inside => by
        have := a.range.nonempty
        simp only [decide_eq_true_eq] at inside ⊢
        omega
    generalize tree.dropWhile (·.range.start ≤ r.start) = list at *
    cases list with
    | nil => cases behind
    | cons first =>
      have fails : cond first.range ≠ true := by simpa using upper
      rcases List.mem_cons.mp behind with rfl | later
      · exact fails holds
      · have start : r.start < first.range.start := by simpa using starts first (by simp)
        exact fails (neighbours.nearer _ _ holds start
          ((List.pairwise_cons.mp next_first).1 entry later))

/-! ### What a lookup returns -/

section
variable {maxCacheSize : Nat} {map : AddrRangeMap V} {r : AddrRange} {cond : AddrRange → Bool}

/-- The ways in which `find` can end. -/
inductive Found (maxCacheSize : Nat) (map : AddrRangeMap V) (r : AddrRange)
    (cond : AddrRange → Bool) : AddrRangeMap V × Option Nat → Prop
  | promoted (entry : RangeEntry V) (inCache : entry.node ∈ map.cache) (mem : entry ∈ map.tree)
      (meets : cond entry.range = true) :
      Found maxCacheSize map r cond
        ({ map with cache := entry.node :: map.cache.erase entry.node }, some entry.node)
  | searched (entry : RangeEntry V) (mem : entry ∈ map.tree) (meets : cond entry.range = true) :
      Found maxCacheSize map r cond
        (map.addNewEntryToCache maxCacheSize entry.node, some entry.node)
  | missed (missed : map.search r cond = none) : Found maxCacheSize map r cond (map, none)

theorem find_found {result : AddrRangeMap V × Option Nat}
    (done : map.find maxCacheSize r cond = some result) : Found maxCacheSize map r cond result := by
  obtain ⟨_, scanned, done⟩ := Option.bind_eq_some_iff.mp done
  split at done
  next =>
    cases done
    obtain ⟨inCache, entry, mem, rfl, meets⟩ := scanCache_hit scanned
    exact .promoted entry inCache mem meets
  next =>
    split at done
    next entry found =>
      cases done
      exact .searched entry (search_some found).1 (search_some found).2
    next missed =>
      cases done
      exact .missed missed

variable (maxCacheSize map) in
theorem addNewEntryToCache_tree (it : Nat) :
    (map.addNewEntryToCache maxCacheSize it).tree = map.tree ∧
      (map.addNewEntryToCache maxCacheSize it).nodes = map.nodes := by
  simp only [addNewEntryToCache]
  split_ifs <;> exact ⟨rfl, rfl⟩

theorem addNewEntryToCache_length (it : Nat) (bounded : map.cache.length ≤ maxCacheSize) :
    (map.addNewEntryToCache maxCacheSize it).cache.length ≤ maxCacheSize := by
  simp only [addNewEntryToCache]
  split_ifs
  · exact bounded
  · simp only [List.length_cons, List.length_dropLast]
    omega
  · simp only [List.length_cons]
    omega

theorem mem_addNewEntryToCache {other : Nat}
    (mem : other ∈ (map.addNewEntryToCache maxCacheSize it).cache) :
    other = it ∨ other ∈ map.cache := by
  simp only [addNewEntryToCache] at mem
  split_ifs at mem
  · exact .inr mem
  · exact (List.mem_cons.mp mem).imp_right (List.dropLast_sublist _).mem
  · exact List.mem_cons.mp mem

variable {after : AddrRangeMap V} {it : Option Nat} {α : Type}

/-- A lookup changes the cache only, and keeps it valid if it was. -/
theorem Found.keeps (found : Found maxCacheSize map r cond (after, it)) :
    after.tree = map.tree ∧ after.nodes = map.nodes ∧
      (map.cache.length ≤ maxCacheSize → after.cache.length ≤ maxCacheSize) ∧
      (map.Cached → after.Cached) := by
  cases found with
  | promoted entry inCache mem =>
    refine ⟨rfl, rfl, fun bounded => ?_, fun cached it inside => ?_⟩
    · have := List.length_pos_of_mem inCache
      simp only [List.length_cons, List.length_erase_of_mem inCache]
      omega
    · rcases List.mem_cons.mp inside with rfl | old
      · exact ⟨entry, mem, rfl⟩
      · exact cached it (List.mem_of_mem_erase old)
  | searched entry mem =>
    obtain ⟨tree, nodes⟩ := addNewEntryToCache_tree maxCacheSize map entry.node
    refine ⟨tree, nodes, addNewEntryToCache_length _, fun cached it inside => ?_⟩
    rw [tree]
    rcases mem_addNewEntryToCache inside with rfl | old
    · exact ⟨entry, mem, rfl⟩
    · exact cached it old
  | missed => exact ⟨rfl, rfl, id, id⟩

/-- A lookup returns an entry that meets the condition, and none only if there is none. -/
theorem Found.exact (formed : Formed maxCacheSize map) (neighbours : Local r cond)
    (found : Found maxCacheSize map r cond (after, it)) :
    match it with
    | some node => ∃ entry ∈ map.tree, entry.node = node ∧ cond entry.range = true
    | none => ∀ entry ∈ map.tree, cond entry.range = false := by
  cases found with
  | promoted entry _ mem meets => exact ⟨entry, mem, rfl, meets⟩
  | searched entry mem meets => exact ⟨entry, mem, rfl, meets⟩
  | missed missed => exact none_of_search formed.ordered neighbours missed

variable (maxCacheSize r cond) in
theorem find_total (cached : map.Cached) :
    ∃ result, map.find maxCacheSize r cond = some result := by
  obtain ⟨_, scanned⟩ := scanCache_total cond cached
  simp only [find, scanned, Option.bind_eq_bind, Option.bind_some]
  split
  · exact ⟨_, rfl⟩
  · split <;> exact ⟨_, rfl⟩

/-! ### The calls -/

theorem Found.formed (formed : Formed maxCacheSize map)
    (found : Found maxCacheSize map r cond (after, it)) : Formed maxCacheSize after := by
  obtain ⟨tree, nodes, bounded, _⟩ := found.keeps
  refine ⟨?_, ?_, ?_, bounded formed.bounded⟩ <;> rw [tree]
  · exact formed.ordered
  · exact nodes ▸ formed.fresh
  · exact formed.distinct

theorem pairwise_insert {R : α → α → Prop} {before after : List α} {x : α}
    (pairs : (before ++ after).Pairwise R) (front : ∀ a ∈ before, R a x)
    (behind : ∀ a ∈ after, R x a) : (before ++ x :: after).Pairwise R := by
  obtain ⟨first, last, across⟩ := List.pairwise_append.mp pairs
  refine List.pairwise_append.mpr ⟨first, List.pairwise_cons.mpr ⟨behind, last⟩, ?_⟩
  exact fun a inFront => List.forall_mem_cons.mpr ⟨front a inFront, across a inFront⟩

/-- A range that meets no entry has its place between two of them. -/
theorem treeInsert_formed (d : V) (formed : Formed maxCacheSize map)
    (apart : ∀ entry ∈ map.tree, r.intersects entry.range = false) :
    Formed maxCacheSize (map.treeInsert r d).1 := by
  simp only [treeInsert]
  split
  next => exact formed
  next =>
    have cut := List.takeWhile_append_dropWhile
      (p := fun e : RangeEntry V => e.range.start < r.start) (l := map.tree)
    have ordered := formed.ordered
    have distinct := formed.distinct
    have starts := OrderedCuts.not_of_mem_dropWhile formed.ordered
      (p := fun e : RangeEntry V => e.range.start < r.start) fun a b before inside => by
        have := a.range.nonempty
        simp only [decide_eq_true_eq] at inside ⊢
        omega
    have disjoint (entry) (mem : entry ∈ map.tree) :
        entry.range.stop ≤ r.start ∨ r.stop ≤ entry.range.start := by
      have := (not_congr (r.intersects_iff entry.range)).mp (by simp [apart entry mem])
      omega
    refine ⟨pairwise_insert (by rwa [cut]) (fun a front => ?_) fun a behind => ?_,
      fun entry mem => ?_,
      pairwise_insert (by rwa [cut]) (fun a front => ?_) fun a behind => ?_,
      formed.bounded⟩
    · have := disjoint a ((List.takeWhile_sublist _).mem front)
      have : a.range.start < r.start := by simpa using List.mem_takeWhile_imp front
      have := r.nonempty
      show a.range.stop ≤ r.start
      omega
    · have := disjoint a ((List.dropWhile_sublist _).mem behind)
      have : ¬ a.range.start < r.start := by simpa using starts a behind
      have := a.range.nonempty
      show r.stop ≤ a.range.start
      omega
    · rcases List.mem_append.mp mem with front | rest
      · exact Nat.lt_succ_of_lt (formed.fresh entry ((List.takeWhile_sublist _).mem front))
      · rcases List.mem_cons.mp rest with rfl | behind
        · exact Nat.lt_succ_self _
        · exact Nat.lt_succ_of_lt (formed.fresh entry ((List.dropWhile_sublist _).mem behind))
    · exact Nat.ne_of_lt (formed.fresh a ((List.takeWhile_sublist _).mem front))
    · exact Nat.ne_of_gt (formed.fresh a ((List.dropWhile_sublist _).mem behind))

theorem treeInsert_cached (d : V) (cached : map.Cached) : (map.treeInsert r d).1.Cached := by
  simp only [treeInsert]
  split
  next => exact cached
  next =>
    intro it inside
    obtain ⟨entry, mem, named⟩ := cached it inside
    refine ⟨entry, ?_, named⟩
    rcases OrderedCuts.mem_cut (p := (·.range.start < r.start)) mem with front | behind
    · exact List.mem_append_left _ front
    · exact List.mem_append_right _ (List.mem_cons_of_mem _ behind)

theorem insert_keeps {d : V} (formed : Formed maxCacheSize map)
    (done : map.insert maxCacheSize r d = some (after, it)) :
    Formed maxCacheSize after ∧ (map.Cached → after.Cached) := by
  obtain ⟨⟨_, found⟩, lookup, done⟩ := Option.bind_eq_some_iff.mp done
  have result := find_found lookup
  have exactly := result.exact formed (local_intersects r)
  obtain ⟨tree, _, _, cached⟩ := result.keeps
  cases found with
  | some =>
    cases done
    exact ⟨result.formed formed, cached⟩
  | none =>
    cases done
    exact ⟨treeInsert_formed d (result.formed formed) (tree ▸ exactly),
      fun valid => treeInsert_cached d (cached valid)⟩

/-- Entries are taken out, and the cache does not grow. -/
theorem Formed.removed (formed : Formed maxCacheSize map) (tree : after.tree.Sublist map.tree)
    (nodes : after.nodes = map.nodes) (cache : after.cache.length ≤ map.cache.length) :
    Formed maxCacheSize after where
  ordered := formed.ordered.sublist tree
  fresh entry mem := nodes ▸ formed.fresh entry (tree.mem mem)
  distinct := formed.distinct.sublist tree
  bounded := cache.trans formed.bounded

theorem mem_foldl_filter (p : Option Nat) (span : List α) (cache : List Nat) (it : Nat) :
    it ∈ span.foldl (fun cache _ => cache.filter (some · ≠ p)) cache ↔
      it ∈ cache ∧ (span ≠ [] → some it ≠ p) := by
  induction span generalizing cache with
  | nil => simp
  | cons _ _ ih =>
    rw [List.foldl_cons, ih]
    simp only [List.mem_filter, decide_eq_true_eq, ne_eq, reduceCtorEq, not_false_eq_true,
      forall_const]
    exact ⟨fun inside => inside.1, fun inside => ⟨inside, fun _ => inside.2⟩⟩

theorem length_foldl_filter (p : Option Nat) (span : List α) (cache : List Nat) :
    (span.foldl (fun cache _ => cache.filter (some · ≠ p)) cache).length ≤ cache.length := by
  induction span generalizing cache with
  | nil => exact Nat.le_refl _
  | cons _ _ ih => exact (ih _).trans (List.length_filter_le _ _)

variable {span : List (RangeEntry V)} {p q : Option Nat}

theorem span_some (valid : map.span p q = some span) :
    span.Sublist map.tree ∧ ∀ first rest, span = first :: rest → some first.node = p := by
  simp only [AddrRangeMap.span] at valid
  split_ifs at valid with inside
  cases valid
  refine ⟨(List.takeWhile_sublist _).trans (List.dropWhile_sublist _), fun first rest here => ?_⟩
  have stops := List.head?_dropWhile_not (fun e : RangeEntry V => decide (some e.node ≠ p)) map.tree
  generalize map.tree.dropWhile (fun e => decide (some e.node ≠ p)) = behind at *
  cases behind with
  | nil => cases here
  | cons =>
    rw [List.takeWhile_cons] at here
    split_ifs at here
    cases here
    simpa using stops

/-- Exactly the spans without a cached entry behind their first one leave the cache valid. -/
theorem eraseSpan_cached_iff (formed : Formed maxCacheSize map) (cached : map.Cached)
    (valid : map.span p q = some span) (done : map.eraseSpan p q = some after) :
    after.Cached ↔ ∀ entry ∈ span.tail, entry.node ∉ map.cache := by
  obtain ⟨inTree, starts⟩ := span_some valid
  simp only [eraseSpan, valid, Option.bind_eq_bind, Option.bind_some, Option.some.injEq] at done
  subst done
  simp only [Cached, mem_foldl_filter, List.mem_filter, decide_eq_true_eq, and_assoc]
  cases span with
  | nil => simpa [Cached] using cached
  | cons first rest =>
    have here := starts first rest rfl
    constructor
    · intro kept entry mem inCache
      have other := (List.pairwise_cons.mp (formed.distinct.sublist inTree)).1 entry mem
      obtain ⟨_, _, outside, same⟩ := kept entry.node
        ⟨inCache, fun _ named => other (Option.some.inj (here.trans named.symm))⟩
      rw [same] at outside
      exact outside (List.mem_map_of_mem (List.mem_cons_of_mem _ mem))
    · rintro uncached it ⟨inCache, notFirst⟩
      obtain ⟨entry, mem, rfl⟩ := cached it inCache
      refine ⟨entry, mem, fun erased => ?_, rfl⟩
      obtain ⟨gone, inSpan, same⟩ := List.mem_map.mp erased
      rcases List.mem_cons.mp inSpan with rfl | later
      · exact notFirst (by simp) (same ▸ here)
      · exact uncached gone later (same ▸ inCache)

end

/-! ### Runs -/

/-- No entry behind the first one of an erased span is in the cache. -/
def SpanUncached (map : AddrRangeMap V) : Call V → Prop
  | .eraseSpan p q =>
      ∀ span, map.span p q = some span → ∀ entry ∈ span.tail, entry.node ∉ map.cache
  | _ => True

theorem step_formed (maxCacheSize : Nat) (map : AddrRangeMap V) (call : Call V)
    (after : AddrRangeMap V) (formed : Formed maxCacheSize map)
    (done : step maxCacheSize map call = some after) : Formed maxCacheSize after := by
  cases call with
  | insert =>
    obtain ⟨⟨_, _⟩, ret, rfl⟩ := Option.map_eq_some_iff.mp done
    exact (insert_keeps formed ret).1
  | erase =>
    obtain ⟨_, _, done⟩ := Option.bind_eq_some_iff.mp done
    cases done
    exact formed.removed List.filter_sublist rfl (List.length_filter_le _ _)
  | eraseSpan p =>
    obtain ⟨span, _, done⟩ := Option.bind_eq_some_iff.mp done
    cases done
    exact formed.removed List.filter_sublist rfl (length_foldl_filter p span map.cache)
  | clear =>
    cases done
    exact formed.removed (List.nil_sublist _) rfl (Nat.zero_le _)
  | contains r | intersects r =>
    obtain ⟨⟨_, _⟩, ret, rfl⟩ := Option.map_eq_some_iff.mp done
    exact (find_found ret).formed formed

theorem step_cached_iff (maxCacheSize : Nat) (map : AddrRangeMap V) (call : Call V)
    (formed : Formed maxCacheSize map) (cached : map.Cached) :
    (∀ after, step maxCacheSize map call = some after → after.Cached) ↔ map.SpanUncached call := by
  cases call with
  | insert =>
    refine iff_of_true (fun after done => ?_) trivial
    obtain ⟨⟨_, _⟩, ret, rfl⟩ := Option.map_eq_some_iff.mp done
    exact (insert_keeps formed ret).2 cached
  | erase =>
    refine iff_of_true (fun after done it inside => ?_) trivial
    obtain ⟨_, _, done⟩ := Option.bind_eq_some_iff.mp done
    cases done
    obtain ⟨inCache, other⟩ := List.mem_filter.mp inside
    obtain ⟨entry, mem, rfl⟩ := cached it inCache
    exact ⟨entry, List.mem_filter.mpr ⟨mem, other⟩, rfl⟩
  | eraseSpan p q =>
    constructor
    · intro kept _ valid
      obtain ⟨after, done⟩ : ∃ after, map.eraseSpan p q = some after := by
        simp only [eraseSpan, valid, Option.bind_eq_bind, Option.bind_some]
        exact ⟨_, rfl⟩
      exact (eraseSpan_cached_iff formed cached valid done).mp (kept _ done)
    · intro uncached _ done
      obtain ⟨span, valid, _⟩ := Option.bind_eq_some_iff.mp done
      exact (eraseSpan_cached_iff formed cached valid done).mpr (uncached span valid)
  | clear =>
    refine iff_of_true (fun after done it inside => ?_) trivial
    cases done
    cases inside
  | contains r | intersects r =>
    refine iff_of_true (fun after done => ?_) trivial
    obtain ⟨⟨_, _⟩, ret, rfl⟩ := Option.map_eq_some_iff.mp done
    exact (find_found ret).keeps.2.2.2 cached

/-- The lookup finishes and returns an entry with the property exactly if there is one. -/
def Answers (map : AddrRangeMap V) (result : Option (AddrRangeMap V × Option Nat))
    (P : AddrRange → Prop) : Prop :=
  ∃ after it, result = some (after, it) ∧
    (∀ node, it = some node → ∃ entry ∈ map.tree, entry.node = node ∧ P entry.range) ∧
    (it = none → ∀ entry ∈ map.tree, ¬ P entry.range)

theorem find_answers {maxCacheSize : Nat} (formed : Formed maxCacheSize map) (cached : map.Cached)
    (neighbours : Local r cond) :
    map.Answers (map.find maxCacheSize r cond) fun range => cond range = true := by
  obtain ⟨⟨after, it⟩, done⟩ := find_total maxCacheSize r cond cached
  have exactly := (find_found done).exact formed neighbours
  refine ⟨after, it, done, ?_, ?_⟩
  · rintro node rfl
    exact exactly
  · rintro rfl entry mem
    simpa using exactly entry mem

/-- Along a run the cache refers only to entries of the map exactly if no erased span has
a cached entry behind its first one, and as long as that is so, the ranges are disjoint,
the cache keeps to its size and the lookups are exact. -/
theorem cache_valid_iff (maxCacheSize : Nat) (calls : List (Call V)) :
    (Runs.Along (step maxCacheSize)
        (fun map call => ∀ after, step maxCacheSize map call = some after → after.Cached) {} calls ↔
      Runs.Along (step maxCacheSize) SpanUncached {} calls) ∧
    ∀ map, Runs.Along (step maxCacheSize) SpanUncached {} calls →
      Runs.run (step maxCacheSize) {} calls = some map →
      (map.tree.Pairwise fun a b => ∀ address, ¬ (a.range.start ≤ address ∧ address < a.range.stop ∧
        b.range.start ≤ address ∧ address < b.range.stop)) ∧
      map.Cached ∧ map.cache.length ≤ maxCacheSize ∧ ∀ r : AddrRange,
        map.Answers (map.contains maxCacheSize r)
          (fun range => range.start ≤ r.start ∧ r.stop ≤ range.stop) ∧
        map.Answers (map.intersects maxCacheSize r)
          (fun range => r.start < range.stop ∧ range.start < r.stop) := by
  have formed : Formed maxCacheSize ({} : AddrRangeMap V) := ⟨.nil, by simp, .nil, Nat.zero_le _⟩
  have cached : ({} : AddrRangeMap V).Cached := fun it inside => by cases inside
  refine ⟨Runs.along_keeps_iff (step_formed maxCacheSize) (step_cached_iff maxCacheSize) {} calls
    formed cached, ?_⟩
  intro map along ran
  obtain ⟨formed, cached⟩ := Runs.run_invariant
    (fun map call after (both : Formed maxCacheSize map ∧ map.Cached) uncached done =>
      ⟨step_formed maxCacheSize map call after both.1 done,
        (step_cached_iff maxCacheSize map call both.1 both.2).mpr uncached after done⟩)
    {} map calls ⟨formed, cached⟩ along ran
  refine ⟨formed.ordered.imp fun apart address inside => by omega, cached, formed.bounded,
    fun r => ⟨?_, ?_⟩⟩
  · have answers := find_answers formed cached (local_isSubset r)
    simpa only [contains, AddrRange.isSubset_iff] using answers
  · have answers := find_answers formed cached (local_intersects r)
    simpa only [intersects, AddrRange.intersects_iff] using answers

/-- Two entries are erased as a span while the second one is in the cache. The next
lookup uses its iterator. -/
theorem cache_invalid_span :
    ∃ map : AddrRangeMap Unit,
      Runs.run (step 1) {} [.insert ⟨0, 16, by decide⟩ (), .insert ⟨16, 32, by decide⟩ (),
        .contains ⟨16, 17, by decide⟩, .eraseSpan (some 0) none] = some map ∧
      map.tree = [] ∧ map.cache = [1] ∧ map.contains 1 ⟨0, 1, by decide⟩ = none :=
  ⟨_, rfl, rfl, rfl, rfl⟩

end AddrRangeMap
end RasCache.Base
