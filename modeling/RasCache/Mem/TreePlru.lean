import Mathlib.Tactic.Ring
import RasCache.Foundation.DirectionTree
import RasCache.Foundation.Runs

/-!
# Tree pseudo-LRU replacement

Model of `TreePLRU` (`mem/cache/replacement_policies/tree_plru_rp.cc`). The entries of
a set share a tree of bits that is kept as an array: the subtrees of the node at `i`
are at `2 * i + 1` and `2 * i + 2`, and the leaves, which are not stored, have the
indices behind the array. An access walks from its leaf up to the root and sets the
bits it passes; the victim is found by following the bits down from the root.

The array is compared with a direction tree (`subtree`): `walk_subtree` for the way
down and `updatePath_root` for the way up. Indices are natural numbers, and
`parentIndex`, which takes its integer quotient through a `double`, is exact here; it
is below 2 ^ 53.
-/
namespace RasCache.Mem.TreePlru

open DirectionTree

/-- A `std::vector<bool>`. -/
abbrev PLRUTree := List Bool

def parentIndex (index : Nat) : Nat := (index - 1) / 2

def leftSubtreeIndex (index : Nat) : Nat := 2 * index + 1

def rightSubtreeIndex (index : Nat) : Nat := 2 * index + 2

def isRightSubtree (index : Nat) : Bool := index % 2 == 0

/-- The loop of `invalidate` and of `touch`, which differ in the bit they store at the
parent of the node they come from. An index that `at` rejects gives `none`. -/
def updatePath (mark : Bool → Bool) (tree : PLRUTree) (treeIndex : Nat) : Option PLRUTree :=
  let right := isRightSubtree treeIndex
  let parent := parentIndex treeIndex
  if parent < tree.length then
    if parent = 0 then some (tree.set parent (mark right))
    else updatePath mark (tree.set parent (mark right)) parent
  else none
termination_by treeIndex
decreasing_by
  have notRoot : (treeIndex - 1) / 2 ≠ 0 := ‹_›
  show (treeIndex - 1) / 2 < treeIndex
  omega

/-- The loop of `getVictim`. -/
def walk (tree : PLRUTree) (treeIndex : Nat) : Nat :=
  if inside : treeIndex < tree.length then
    if tree[treeIndex] then walk tree (rightSubtreeIndex treeIndex)
    else walk tree (leftSubtreeIndex treeIndex)
  else treeIndex
termination_by tree.length - treeIndex
decreasing_by all_goals simp only [rightSubtreeIndex, leftSubtreeIndex]; omega

/-- The replacement data of an entry. `tree` points into the trees the policy has
allocated. -/
structure TreePLRUReplData where
  index : Nat
  tree : Option Nat
deriving Repr, DecidableEq

/-- The policy, with the trees it has allocated so far. -/
structure TreePLRU where
  numLeaves : Nat
  count : Nat := 0
  treeInstance : Option Nat := none
  trees : List PLRUTree := []
deriving Repr, DecidableEq

def isPowerOf2 (n : Nat) : Bool := n != 0 && n &&& (n - 1) == 0

/-- The constructor, whose `fatal_if` gives `none`. -/
def TreePLRU.make (numLeaves : Nat) : Option TreePLRU :=
  if isPowerOf2 numLeaves then some { numLeaves } else none

namespace TreePLRU

def updateTree (mark : Bool → Bool) (policy : TreePLRU) (data : TreePLRUReplData) :
    Option TreePLRU := do
  let pointer ← data.tree
  let tree ← policy.trees[pointer]?
  let tree ← updatePath mark tree data.index
  some { policy with trees := policy.trees.set pointer tree }

/-- The nodes come to point towards the entry. -/
def invalidate (policy : TreePLRU) (data : TreePLRUReplData) : Option TreePLRU :=
  policy.updateTree id data

/-- The nodes come to point away from the entry. -/
def touch (policy : TreePLRU) (data : TreePLRUReplData) : Option TreePLRU :=
  policy.updateTree not data

def reset (policy : TreePLRU) (data : TreePLRUReplData) : Option TreePLRU :=
  policy.touch data

/-- The candidates are given by their replacement data. -/
def getVictim (policy : TreePLRU) (candidates : List TreePLRUReplData) :
    Option TreePLRUReplData := do
  let first ← candidates[0]?
  let pointer ← first.tree
  let tree ← policy.trees[pointer]?
  candidates[walk tree 0 - (policy.numLeaves - 1)]?

def instantiateEntry (policy : TreePLRU) : TreePLRU × TreePLRUReplData :=
  let allocated :=
    if policy.count % policy.numLeaves = 0 then
      { policy with
        trees := policy.trees ++ [List.replicate (policy.numLeaves - 1) false]
        treeInstance := some policy.trees.length }
    else policy
  ({ allocated with count := policy.count + 1 },
    { index := policy.count % policy.numLeaves + policy.numLeaves - 1
      tree := allocated.treeInstance })

/-- The victims when `n` times a victim is chosen and then touched. -/
def victims (candidates : List TreePLRUReplData) : Nat → TreePLRU → Option (List TreePLRUReplData)
  | 0, _ => some []
  | n + 1, policy => do
      let victim ← policy.getVictim candidates
      let policy ← policy.touch victim
      let rest ← victims candidates n policy
      some (victim :: rest)

end TreePLRU

/-! ### The system -/

inductive Update
  | touch
  | reset
  | invalidate
deriving Repr, DecidableEq

def Update.apply : Update → TreePLRU → TreePLRUReplData → Option TreePLRU
  | .touch => TreePLRU.touch
  | .reset => TreePLRU.reset
  | .invalidate => TreePLRU.invalidate

/-- The policy and the entries it has created, in the order of their creation. -/
structure System where
  policy : TreePLRU
  entries : List TreePLRUReplData := []
deriving Repr, DecidableEq

inductive Call
  | instantiateEntry
  | update (kind : Update) (entry : Nat)
deriving Repr, DecidableEq

def step (system : System) : Call → Option System
  | .instantiateEntry =>
      let (policy, data) := system.policy.instantiateEntry
      some { policy, entries := system.entries ++ [data] }
  | .update kind entry => do
      let data ← system.entries[entry]?
      let policy ← kind.apply system.policy data
      some { system with policy }

/-- The entries that share the tree with the given number, in leaf order. -/
def System.sharers (system : System) (tree : Nat) : List TreePLRUReplData :=
  (system.entries.drop (tree * system.policy.numLeaves)).take system.policy.numLeaves

/-- The entry at a leaf of a tree. -/
def leafData (numLeaves tree leaf : Nat) : TreePLRUReplData :=
  { index := leaf + numLeaves - 1, tree := some tree }

/-! ### The array as a tree -/

/-- The tree below an index. -/
def subtree (tree : PLRUTree) : (height : Nat) → Nat → BitTree height
  | 0, _ => .leaf
  | height + 1, index =>
      .node (tree.getD index false) (subtree tree height (leftSubtreeIndex index))
        (subtree tree height (rightSubtreeIndex index))

/-- The index stands at the given depth. -/
structure AtDepth (depth index : Nat) : Prop where
  above : 2 ^ depth ≤ index + 1
  below : index + 1 < 2 ^ (depth + 1)

namespace AtDepth

variable {depth index : Nat}

theorem root : AtDepth 0 0 := ⟨by decide, by decide⟩

theorem left (level : AtDepth depth index) : AtDepth (depth + 1) (leftSubtreeIndex index) := by
  obtain ⟨_, _⟩ := level
  constructor <;> simp only [leftSubtreeIndex, Nat.pow_succ] at * <;> omega

theorem right (level : AtDepth depth index) : AtDepth (depth + 1) (rightSubtreeIndex index) := by
  obtain ⟨_, _⟩ := level
  constructor <;> simp only [rightSubtreeIndex, Nat.pow_succ] at * <;> omega

theorem stored {tree : PLRUTree} {height : Nat} (level : AtDepth depth index)
    (size : tree.length + 1 = 2 ^ (depth + (height + 1))) : index < tree.length := by
  have deeper : 2 ^ (depth + 1) ≤ 2 ^ (depth + (height + 1)) :=
    Nat.pow_le_pow_right (by decide) (by omega)
  have := level.below
  omega

end AtDepth

/-- The leftmost leaf below an index. -/
def firstLeaf (height index : Nat) : Nat := (index + 1) * 2 ^ height - 1

theorem firstLeaf_zero (index : Nat) : firstLeaf 0 index = index := by
  simp [firstLeaf]

theorem firstLeaf_left (height index : Nat) :
    firstLeaf height (leftSubtreeIndex index) = firstLeaf (height + 1) index := by
  have doubled : (2 * index + 1 + 1) * 2 ^ height = (index + 1) * 2 ^ (height + 1) := by ring
  simp only [firstLeaf, leftSubtreeIndex, doubled]

theorem firstLeaf_right (height index : Nat) :
    firstLeaf height (rightSubtreeIndex index) = firstLeaf (height + 1) index + 2 ^ height := by
  have shifted : (2 * index + 2 + 1) * 2 ^ height =
      (index + 1) * 2 ^ (height + 1) + 2 ^ height := by ring
  have positive : 0 < (index + 1) * 2 ^ (height + 1) :=
    Nat.mul_pos (Nat.succ_pos _) (Nat.two_pow_pos _)
  simp only [firstLeaf, rightSubtreeIndex, shifted]
  exact Nat.sub_add_comm positive

/-- The way down ends at the victim of the tree below. -/
theorem walk_subtree (tree : PLRUTree) (height depth index : Nat) (level : AtDepth depth index)
    (size : tree.length + 1 = 2 ^ (depth + height)) :
    walk tree index = firstLeaf height index + victim (subtree tree height index) := by
  induction height generalizing depth index with
  | zero =>
    have := level.above
    rw [walk, dif_neg (by simp only [Nat.add_zero] at size; omega), firstLeaf_zero]
    rfl
  | succ height ih =>
    have inside := level.stored size
    have size' : tree.length + 1 = 2 ^ (depth + 1 + height) := by rw [size]; congr 1; omega
    have bit : tree.getD index false = tree[index] := by simp [inside]
    rw [walk, dif_pos inside, subtree, victim, bit]
    split
    next => rw [ih _ _ level.right size', firstLeaf_right, Nat.add_assoc]
    next => rw [ih _ _ level.left size', firstLeaf_left]

/-! ### The way up -/

/-- `index` is met on the way up from `below`. -/
def Under (index below : Nat) : Prop := ∃ levels, (below + 1) / 2 ^ levels = index + 1

namespace Under

variable {index below : Nat}

theorem self (index : Nat) : Under index index := ⟨0, by simp⟩

theorem of_left (under : Under (leftSubtreeIndex index) below) : Under index below := by
  obtain ⟨levels, met⟩ := under
  refine ⟨levels + 1, ?_⟩
  rw [Nat.pow_succ, ← Nat.div_div_eq_div_mul, met, leftSubtreeIndex]
  omega

theorem of_right (under : Under (rightSubtreeIndex index) below) : Under index below := by
  obtain ⟨levels, met⟩ := under
  refine ⟨levels + 1, ?_⟩
  rw [Nat.pow_succ, ← Nat.div_div_eq_div_mul, met, rightSubtreeIndex]
  omega

theorem le (under : Under index below) : index ≤ below := by
  obtain ⟨levels, _⟩ := under
  have := Nat.div_le_self (below + 1) (2 ^ levels)
  omega

/-- Of two indices that are met on the way up, the way goes through one to the other. -/
theorem comparable {other : Nat} (under : Under index below) (also : Under other below)
    (larger : index ≤ other) : Under index other := by
  obtain ⟨levels, met⟩ := under
  obtain ⟨levels', met'⟩ := also
  rcases Nat.le_total levels' levels with fewer | more
  · obtain ⟨rest, rfl⟩ := Nat.exists_eq_add_of_le fewer
    refine ⟨rest, ?_⟩
    rw [← met', Nat.div_div_eq_div_mul, ← Nat.pow_add, met]
  · have shrinks : (below + 1) / 2 ^ levels' ≤ (below + 1) / 2 ^ levels :=
      Nat.div_le_div_left (Nat.pow_le_pow_right (by decide) more) (Nat.two_pow_pos _)
    have same : index = other := by omega
    exact same ▸ self index

theorem apart (under : Under (leftSubtreeIndex index) below) :
    ¬ Under (rightSubtreeIndex index) below := by
  intro also
  obtain ⟨levels, met⟩ := under.comparable also (by simp [leftSubtreeIndex, rightSubtreeIndex])
  simp only [leftSubtreeIndex, rightSubtreeIndex] at met
  cases levels with
  | zero => simp only [Nat.pow_zero, Nat.div_one] at met; omega
  | succ levels =>
    have half : (2 * index + 2 + 1) / 2 ^ (levels + 1) ≤ (2 * index + 2 + 1) / 2 ^ 1 :=
      Nat.div_le_div_left (Nat.pow_le_pow_right (by decide) (by omega)) (by decide)
    omega

end Under

variable {tree : PLRUTree} {index height count size : Nat}

/-- The tree below an index is made of the bits under it. -/
theorem subtree_congr {other : PLRUTree} (height index : Nat)
    (same : ∀ below, Under index below → other.getD below false = tree.getD below false) :
    subtree other height index = subtree tree height index := by
  induction height generalizing index with
  | zero => rfl
  | succ _ ih =>
    rw [subtree, subtree, same index (.self index), ih _ fun _ under => same _ under.of_left,
      ih _ fun _ under => same _ under.of_right]

/-- `other` is the tree once the way up from a leaf has come to `index`. -/
structure Climbed (mark : Bool → Bool) (tree other : PLRUTree) (height index leaf : Nat) :
    Prop where
  size : other.length = tree.length
  turned : subtree other height index = turn mark (subtree tree height index) leaf
  kept : ∀ below, ¬ Under index below → other.getD below false = tree.getD below false

theorem getD_set_self (inside : index < tree.length) (bit : Bool) :
    (tree.set index bit).getD index false = bit := by
  simp [inside]

theorem getD_set_of_ne {below : Nat} (other : index ≠ below) (bit : Bool) :
    (tree.set index bit).getD below false = tree.getD below false := by
  simp [List.getElem?_set_ne other]

/-- Writing a node leaves the trees below its children alone. -/
theorem subtree_set {below : Nat} (height : Nat) (bit : Bool) (deeper : index < below) :
    subtree (tree.set index bit) height below = subtree tree height below :=
  subtree_congr height below fun _ under => getD_set_of_ne (by have := under.le; omega) bit

namespace Climbed

variable {mark : Bool → Bool} {tree other : PLRUTree} {height index leaf : Nat}

theorem start : Climbed mark tree tree 0 index leaf := ⟨rfl, rfl, fun _ _ => rfl⟩

theorem from_left (climbed : Climbed mark tree other height (leftSubtreeIndex index) leaf)
    (stored : index < tree.length) (inside : leaf < 2 ^ height) :
    Climbed mark tree (other.set index (mark false)) (height + 1) index leaf where
  size := by rw [List.length_set, climbed.size]
  turned := by
    have sibling : subtree other height (rightSubtreeIndex index) =
        subtree tree height (rightSubtreeIndex index) :=
      subtree_congr height _ fun _ under => climbed.kept _ fun also => also.apart under
    rw [subtree, getD_set_self (by rw [climbed.size]; exact stored),
      subtree_set _ _ (by simp only [leftSubtreeIndex]; omega),
      subtree_set _ _ (by simp only [rightSubtreeIndex]; omega),
      climbed.turned, sibling, subtree, turn, if_pos inside]
  kept below outside := by
    have elsewhere : index ≠ below := by
      rintro rfl
      exact outside (.self _)
    rw [getD_set_of_ne elsewhere, climbed.kept _ fun under => outside under.of_left]

theorem from_right (climbed : Climbed mark tree other height (rightSubtreeIndex index) leaf)
    (stored : index < tree.length) :
    Climbed mark tree (other.set index (mark true)) (height + 1) index (2 ^ height + leaf) where
  size := by rw [List.length_set, climbed.size]
  turned := by
    have sibling : subtree other height (leftSubtreeIndex index) =
        subtree tree height (leftSubtreeIndex index) :=
      subtree_congr height _ fun _ under => climbed.kept _ under.apart
    rw [subtree, getD_set_self (by rw [climbed.size]; exact stored),
      subtree_set _ _ (by simp only [leftSubtreeIndex]; omega),
      subtree_set _ _ (by simp only [rightSubtreeIndex]; omega),
      climbed.turned, sibling, subtree, turn, if_neg (by omega), Nat.add_sub_cancel_left]
  kept below outside := by
    have elsewhere : index ≠ below := by
      rintro rfl
      exact outside (.self _)
    rw [getD_set_of_ne elsewhere, climbed.kept _ fun under => outside under.of_right]

end Climbed

/-- The loop after a node has been written: it ends at the root. -/
def arrive (mark : Bool → Bool) (tree : PLRUTree) (index : Nat) : Option PLRUTree :=
  if index = 0 then some tree else updatePath mark tree index

section

variable (mark : Bool → Bool)
include mark

theorem updatePath_left (stored : index < tree.length) :
    updatePath mark tree (leftSubtreeIndex index) =
      arrive mark (tree.set index (mark false)) index := by
  have parent : parentIndex (leftSubtreeIndex index) = index := by
    simp only [parentIndex, leftSubtreeIndex]; omega
  have odd : isRightSubtree (leftSubtreeIndex index) = false := by
    simp only [isRightSubtree, leftSubtreeIndex, beq_eq_false_iff_ne]; omega
  rw [updatePath]
  simp only [parent, odd, if_pos stored, arrive]

theorem updatePath_right (stored : index < tree.length) :
    updatePath mark tree (rightSubtreeIndex index) =
      arrive mark (tree.set index (mark true)) index := by
  have parent : parentIndex (rightSubtreeIndex index) = index := by
    simp only [parentIndex, rightSubtreeIndex]; omega
  have even : isRightSubtree (rightSubtreeIndex index) = true := by
    simp only [isRightSubtree, rightSubtreeIndex, beq_iff_eq]; omega
  rw [updatePath]
  simp only [parent, even, if_pos stored, arrive]

theorem arrive_of_ne_zero (tree : PLRUTree) (notRoot : index ≠ 0) :
    arrive mark tree index = updatePath mark tree index :=
  if_neg notRoot

/-- From a leaf up to an index. The loop always takes a first step, so it does not end
at once where there is nothing below the index. -/
theorem climb (depth index leaf : Nat) (level : AtDepth depth index)
    (size : tree.length + 1 = 2 ^ (depth + height)) (inside : leaf < 2 ^ height) :
    ∃ other, Climbed mark tree other height index leaf ∧
      updatePath mark tree (firstLeaf height index + leaf) =
        if height = 0 then updatePath mark other index else arrive mark other index := by
  induction height generalizing depth index leaf with
  | zero =>
    have only : leaf = 0 := by simp only [Nat.pow_zero] at inside; omega
    exact ⟨tree, .start, by rw [firstLeaf_zero, only, if_pos rfl, Nat.add_zero]⟩
  | succ height ih =>
    have stored := level.stored size
    have size' : tree.length + 1 = 2 ^ (depth + 1 + height) := by rw [size]; congr 1; omega
    -- both children have an index other than 0, so the loop goes on from them
    rcases Nat.lt_or_ge leaf (2 ^ height) with low | high
    · obtain ⟨_, climbed, comes⟩ := ih _ _ leaf level.left size' low
      refine ⟨_, climbed.from_left stored low, ?_⟩
      rw [arrive_of_ne_zero _ _ (by simp [leftSubtreeIndex]), ite_self, firstLeaf_left,
        updatePath_left mark (by rw [climbed.size]; exact stored)] at comes
      rw [comes, if_neg (Nat.succ_ne_zero _)]
    · obtain ⟨leaf, rfl⟩ := Nat.exists_eq_add_of_le high
      have inside' : leaf < 2 ^ height := by rw [Nat.pow_succ] at inside; omega
      obtain ⟨_, climbed, comes⟩ := ih _ _ leaf level.right size' inside'
      refine ⟨_, climbed.from_right stored, ?_⟩
      rw [arrive_of_ne_zero _ _ (by simp [rightSubtreeIndex]), ite_self, firstLeaf_right,
        updatePath_right mark (by rw [climbed.size]; exact stored)] at comes
      rw [← Nat.add_assoc, comes, if_neg (Nat.succ_ne_zero _)]

/-- The way up from a leaf turns the bits of the path in the whole tree. -/
theorem updatePath_root {leaf : Nat} (size : tree.length + 1 = 2 ^ (height + 1))
    (inside : leaf < 2 ^ (height + 1)) : ∃ other, other.length = tree.length ∧
      subtree other (height + 1) 0 = turn mark (subtree tree (height + 1) 0) leaf ∧
      updatePath mark tree (leaf + 2 ^ (height + 1) - 1) = some other := by
  have size' : tree.length + 1 = 2 ^ (0 + (height + 1)) := by rw [size, Nat.zero_add]
  obtain ⟨other, climbed, comes⟩ := climb mark 0 0 leaf .root size' inside
  have positive := Nat.two_pow_pos (height + 1)
  have start : firstLeaf (height + 1) 0 + leaf = leaf + 2 ^ (height + 1) - 1 := by
    simp only [firstLeaf, Nat.zero_add, Nat.one_mul]
    omega
  rw [if_neg (Nat.succ_ne_zero _), arrive, if_pos rfl, start] at comes
  exact ⟨other, climbed.size, climbed.turned, comes⟩

end

/-! ### The entries of a tree -/

variable {n : Nat}

theorem exists_pow_of_isPowerOf2 (power : isPowerOf2 n) : ∃ height, n = 2 ^ height := by
  simp only [isPowerOf2, Bool.and_eq_true, bne_iff_ne, beq_iff_eq] at power
  obtain ⟨_, disjoint⟩ := power
  induction n using Nat.strongRecOn with
  | ind n ih =>
    have halves : n / 2 &&& (n - 1) / 2 = 0 := by rw [← Nat.and_div_two, disjoint]
    rcases Nat.mod_two_eq_zero_or_one n with even | odd
    · have less : (n - 1) / 2 = n / 2 - 1 := by omega
      rw [less] at halves
      obtain ⟨height, _⟩ := ih (n / 2) (by omega) (by omega) halves
      exact ⟨height + 1, by rw [Nat.pow_succ]; omega⟩
    · have same : (n - 1) / 2 = n / 2 := by omega
      rw [same, Nat.and_self] at halves
      exact ⟨0, by omega⟩

/-- The candidates of a tree, in leaf order. -/
def leaves (numLeaves tree : Nat) : List TreePLRUReplData :=
  (List.range numLeaves).map (leafData numLeaves tree)

theorem getElem?_leaves {numLeaves leaf : Nat} (tree : Nat) (inside : leaf < numLeaves) :
    (leaves numLeaves tree)[leaf]? = some (leafData numLeaves tree leaf) := by
  simp [leaves, inside]

/-- The policy has a tree of the right size at the given place. -/
structure HasTree (policy : TreePLRU) (pointer height : Nat) (bits : PLRUTree) : Prop where
  numLeaves : policy.numLeaves = 2 ^ (height + 1)
  found : policy.trees[pointer]? = some bits
  size : bits.length + 1 = 2 ^ (height + 1)

namespace HasTree

variable {policy : TreePLRU} {pointer height : Nat} {bits : PLRUTree}

section

variable (has : HasTree policy pointer height bits)
include has

theorem getVictim_eq : policy.getVictim (leaves policy.numLeaves pointer) =
      some (leafData policy.numLeaves pointer (victim (subtree bits (height + 1) 0))) := by
  have inside := victim_lt (subtree bits (height + 1) 0)
  have down := walk_subtree bits (height + 1) 0 0 .root (by rw [has.size, Nat.zero_add])
  have first : walk bits 0 - (policy.numLeaves - 1) = victim (subtree bits (height + 1) 0) := by
    rw [down, firstLeaf, has.numLeaves, Nat.zero_add, Nat.one_mul, Nat.add_sub_cancel_left]
  have candidate : (leaves policy.numLeaves pointer)[0]? =
      some (leafData policy.numLeaves pointer 0) :=
    getElem?_leaves pointer (by rw [has.numLeaves]; exact Nat.two_pow_pos _)
  simp only [TreePLRU.getVictim, candidate, Option.bind_eq_bind, Option.bind_some, leafData,
    has.found, first]
  exact getElem?_leaves pointer (by rw [has.numLeaves]; exact inside)

theorem updateTree_eq (mark : Bool → Bool) {leaf : Nat} (inside : leaf < policy.numLeaves) :
    ∃ bits', policy.updateTree mark (leafData policy.numLeaves pointer leaf) =
        some { policy with trees := policy.trees.set pointer bits' } ∧
      HasTree { policy with trees := policy.trees.set pointer bits' } pointer height bits' ∧
      subtree bits' (height + 1) 0 = turn mark (subtree bits (height + 1) 0) leaf := by
  rw [has.numLeaves] at inside
  obtain ⟨bits', sized, turned, done⟩ := updatePath_root mark has.size inside
  have pointed : pointer < policy.trees.length := (List.getElem?_eq_some_iff.mp has.found).1
  refine ⟨bits', ?_, ⟨has.numLeaves, ?_, ?_⟩, turned⟩
  · simp only [TreePLRU.updateTree, leafData, Option.bind_eq_bind, Option.bind_some, has.found,
      has.numLeaves, done]
  · rw [List.getElem?_set_self pointed]
  · rw [sized, has.size]

/-- Choosing and touching victims goes through the rounds of the direction tree. -/
theorem victims_eq (n : Nat) : TreePLRU.victims (leaves policy.numLeaves pointer) n policy =
      some ((rounds n (subtree bits (height + 1) 0)).map (leafData policy.numLeaves pointer)) := by
  induction n generalizing policy bits with
  | zero => rfl
  | succ _ ih =>
    have inside : victim (subtree bits (height + 1) 0) < policy.numLeaves := by
      rw [has.numLeaves]
      exact victim_lt _
    obtain ⟨_, touched, has', turned⟩ := has.updateTree_eq not inside
    have rest := ih has'
    rw [turned] at rest
    simp only [TreePLRU.victims, has.getVictim_eq, Option.bind_eq_bind, Option.bind_some,
      TreePLRU.touch, touched, rest]
    rfl

end

end HasTree

/-! ### Runs of the policy -/

def Update.mark : Update → Bool → Bool
  | .touch => not
  | .reset => not
  | .invalidate => id

theorem Update.apply_eq (kind : Update) (policy : TreePLRU) (data : TreePLRUReplData) :
    kind.apply policy data = policy.updateTree kind.mark data := by
  cases kind <;> rfl

/-- The entry that was created as number `n`. -/
def entryData (numLeaves n : Nat) : TreePLRUReplData :=
  leafData numLeaves (n / numLeaves) (n % numLeaves)

/-! The number of trees that `count` entries need. -/

theorem blocks_of_mod_eq_zero (positive : 0 < size) (full : count % size = 0) :
    (count + size - 1) / size = count / size := by
  have split := Nat.div_add_mod count size
  rw [full, Nat.add_zero] at split
  have regroup : count + size - 1 = size * (count / size) + (size - 1) := by omega
  have rest : (size - 1) / size = 0 := Nat.div_eq_of_lt (Nat.sub_lt positive Nat.one_pos)
  rw [regroup, Nat.mul_add_div positive, rest, Nat.add_zero]

theorem pred_div_of_mod_ne_zero (positive : 0 < size) (part : count % size ≠ 0) :
    (count - 1) / size = count / size := by
  have split := Nat.div_add_mod count size
  have less := Nat.mod_lt count positive
  have regroup : count - 1 = size * (count / size) + (count % size - 1) := by omega
  have rest : (count % size - 1) / size = 0 := Nat.div_eq_of_lt ((Nat.sub_le _ _).trans_lt less)
  rw [regroup, Nat.mul_add_div positive, rest, Nat.add_zero]

theorem blocks_of_mod_ne_zero (positive : 0 < size) (part : count % size ≠ 0) :
    (count + size - 1) / size = count / size + 1 := by
  have started : 0 < count := Nat.pos_of_ne_zero fun none => part (by rw [none, Nat.zero_mod])
  rw [Nat.sub_add_comm started, Nat.add_div_right _ positive, pred_div_of_mod_ne_zero positive part]

/-- Consecutive entries share a tree, and every tree is complete. -/
structure Sound (numLeaves : Nat) (system : System) : Prop where
  sharing : system.policy.numLeaves = numLeaves
  entries : system.entries = (List.range system.policy.count).map (entryData numLeaves)
  treeInstance : 0 < system.policy.count →
    system.policy.treeInstance = some ((system.policy.count - 1) / numLeaves)
  trees : system.policy.trees.length = (system.policy.count + numLeaves - 1) / numLeaves
  sized : ∀ bits ∈ system.policy.trees, bits.length + 1 = numLeaves

namespace Sound

variable {numLeaves height : Nat} {system : System}

theorem start (positive : 0 < numLeaves) : Sound numLeaves { policy := { numLeaves } } where
  sharing := rfl
  entries := rfl
  treeInstance := by simp
  trees := by
    simp only [List.length_nil, Nat.zero_add]
    exact (Nat.div_eq_of_lt (by omega)).symm
  sized := by simp

variable (sound : Sound numLeaves system)
include sound

/-- The tree of an entry that has been created is there. -/
theorem hasTree (power : numLeaves = 2 ^ (height + 1))
    (pointer n : Nat) (created : n < system.policy.count) (points : n / numLeaves = pointer) :
    ∃ bits, HasTree system.policy pointer height bits := by
  have positive : 0 < numLeaves := power ▸ Nat.two_pow_pos _
  have inside : pointer < system.policy.trees.length := by
    rw [sound.trees, ← points, Nat.lt_iff_add_one_le, ← Nat.add_div_right _ positive]
    exact Nat.div_le_div_right (by omega)
  obtain ⟨bits, found⟩ : ∃ bits, system.policy.trees[pointer]? = some bits :=
    ⟨_, List.getElem?_eq_getElem inside⟩
  refine ⟨bits, sound.sharing.trans power, found, ?_⟩
  rw [sound.sized bits (List.mem_of_getElem? found), power]

theorem entry {data : TreePLRUReplData} (found : system.entries[n]? = some data) :
    n < system.policy.count ∧ data = entryData numLeaves n := by
  rw [sound.entries] at found
  obtain ⟨inside, same⟩ := List.getElem?_eq_some_iff.mp found
  rw [List.length_map, List.length_range] at inside
  exact ⟨inside, by rw [← same, List.getElem_map, List.getElem_range]⟩

variable {bits : PLRUTree}

theorem set_tree (pointer : Nat)
    (size : bits.length + 1 = numLeaves) :
    Sound numLeaves { system with
      policy := { system.policy with trees := system.policy.trees.set pointer bits } } where
  sharing := sound.sharing
  entries := sound.entries
  treeInstance := sound.treeInstance
  trees := by rw [List.length_set, sound.trees]
  sized bits' mem := by
    rcases List.mem_or_eq_of_mem_set mem with old | rfl
    · exact sound.sized bits' old
    · exact size

theorem instantiateEntry (positive : 0 < numLeaves) :
    Sound numLeaves { policy := system.policy.instantiateEntry.1
                      entries := system.entries ++ [system.policy.instantiateEntry.2] } := by
  obtain ⟨sharing, entries, treeInstance, trees, sized⟩ := sound
  subst sharing
  have next : (system.policy.count + 1 + system.policy.numLeaves - 1) / system.policy.numLeaves =
      system.policy.count / system.policy.numLeaves + 1 := by
    rw [Nat.add_right_comm, Nat.add_sub_cancel, Nat.add_div_right _ positive]
  by_cases fresh : system.policy.count % system.policy.numLeaves = 0
  · rw [blocks_of_mod_eq_zero positive fresh] at trees
    simp only [TreePLRU.instantiateEntry, if_pos fresh]
    refine ⟨rfl, ?_, fun _ => ?_, ?_, ?_⟩
    · simp only [List.range_succ, List.map_append, entries, trees]
      rfl
    · simp only [trees, Nat.add_sub_cancel]
    · simp only [List.length_append, trees, List.length_cons, List.length_nil, next]
    · refine List.forall_mem_append.mpr ⟨sized, List.forall_mem_singleton.mpr ?_⟩
      rw [List.length_replicate, Nat.sub_add_cancel positive]
  · have started : 0 < system.policy.count :=
      Nat.pos_of_ne_zero fun none => fresh (by rw [none, Nat.zero_mod])
    have current := treeInstance started
    rw [pred_div_of_mod_ne_zero positive fresh] at current
    rw [blocks_of_mod_ne_zero positive fresh] at trees
    simp only [TreePLRU.instantiateEntry, if_neg fresh]
    refine ⟨rfl, ?_, fun _ => ?_, ?_, sized⟩
    · simp only [List.range_succ, List.map_append, entries, current]
      rfl
    · simp only [current, Nat.add_sub_cancel]
    · simp only [trees, next]

/-- The entries of a tree, as far as they have been created, in leaf order. -/
theorem sharers_eq (positive : 0 < numLeaves) {tree : Nat}
    (complete : (tree + 1) * numLeaves ≤ system.policy.count) :
    system.sharers tree = leaves numLeaves tree := by
  rw [Nat.succ_mul] at complete
  apply List.ext_getElem
  · simp only [System.sharers, leaves, sound.entries, sound.sharing, List.length_take,
      List.length_drop, List.length_map, List.length_range]
    omega
  · intro leaf _ inLeaves
    have inside : leaf < numLeaves := by simpa [leaves] using inLeaves
    simp only [System.sharers, leaves, sound.entries, sound.sharing, List.getElem_take,
      List.getElem_drop, List.getElem_map, List.getElem_range, entryData]
    rw [Nat.mul_comm, Nat.mul_add_div positive, Nat.div_eq_of_lt inside, Nat.add_zero,
      Nat.mul_add_mod, Nat.mod_eq_of_lt inside]

section

variable (power : numLeaves = 2 ^ (height + 1))
include power

/-- An access to an entry that has been created, on the tree it belongs to. -/
theorem update (kind : Update) (created : n < system.policy.count)
    (has : HasTree system.policy (n / numLeaves) height bits) :
    ∃ after bits', step system (.update kind n) = some after ∧ Sound numLeaves after ∧
      after.policy.count = system.policy.count ∧ HasTree after.policy (n / numLeaves) height bits' ∧
      subtree bits' (height + 1) 0 =
        turn kind.mark (subtree bits (height + 1) 0) (n % numLeaves) := by
  obtain rfl := sound.sharing
  have inside : n % system.policy.numLeaves < system.policy.numLeaves :=
    Nat.mod_lt _ (power ▸ Nat.two_pow_pos _)
  obtain ⟨bits', done, has', turned⟩ := has.updateTree_eq kind.mark inside
  have found : system.entries[n]? = some (entryData system.policy.numLeaves n) := by
    rw [sound.entries, List.getElem?_map, List.getElem?_range created]
    rfl
  refine ⟨_, bits', ?_, sound.set_tree _ (has'.size.trans power.symm), rfl, has', turned⟩
  simp only [TreePlru.step, found, Option.bind_eq_bind, Option.bind_some, kind.apply_eq, entryData,
    done]

theorem step {call : Call} {after : System} (done : step system call = some after) :
    Sound numLeaves after := by
  cases call with
  | instantiateEntry =>
    cases done
    exact sound.instantiateEntry (power ▸ Nat.two_pow_pos _)
  | update kind n =>
    obtain ⟨_, found, _⟩ := Option.bind_eq_some_iff.mp done
    obtain ⟨created, -⟩ := sound.entry found
    obtain ⟨_, has⟩ := sound.hasTree power _ n created rfl
    obtain ⟨_, _, done', sound', _⟩ := sound.update power kind created has
    cases done.symm.trans done'
    exact sound'

/-- Accesses to the entries of one tree: the last one decides where the bits lead. -/
theorem updates {tree : Nat} (complete : (tree + 1) * numLeaves ≤ system.policy.count)
    (has : HasTree system.policy tree height bits) (accesses : List (Update × Fin numLeaves)) :
    ∃ after bits', Runs.run TreePlru.step system
        (accesses.map fun access => .update access.1 (tree * numLeaves + access.2)) = some after ∧
      HasTree after.policy tree height bits' ∧ ∀ kind leaf, accesses.getLast? = some (kind, leaf) →
        ∃ before, subtree bits' (height + 1) 0 = turn kind.mark before leaf := by
  induction accesses generalizing system bits with
  | nil => exact ⟨system, bits, rfl, has, by simp⟩
  | cons access rest ih =>
    obtain ⟨kind, leaf⟩ := access
    have positive : 0 < numLeaves := leaf.pos
    have pointer : (tree * numLeaves + leaf) / numLeaves = tree := by
      rw [Nat.mul_comm, Nat.mul_add_div positive, Nat.div_eq_of_lt leaf.isLt, Nat.add_zero]
    have place : (tree * numLeaves + leaf) % numLeaves = leaf := by
      rw [Nat.mul_comm, Nat.mul_add_mod, Nat.mod_eq_of_lt leaf.isLt]
    have created : tree * numLeaves + leaf < system.policy.count := by
      rw [Nat.succ_mul] at complete
      have := leaf.isLt
      omega
    rw [← pointer] at has
    obtain ⟨next, bits₁, done, sound₁, same, has₁, turned⟩ := sound.update power kind created has
    rw [pointer] at has₁
    rw [place] at turned
    obtain ⟨after, bits', ran, has', last⟩ := ih sound₁ (by rw [same]; exact complete) has₁
    refine ⟨after, bits', Runs.run_cons_iff.mpr ⟨next, done, ran⟩, has', ?_⟩
    intro kind' leaf' isLast
    cases rest with
    | nil =>
      cases ran
      cases isLast
      have same : bits' = bits₁ := Option.some.inj (has'.found.symm.trans has₁.found)
      exact ⟨_, same ▸ turned⟩
    | cons => exact last kind' leaf' (by simpa using isLast)

end

end Sound

/-- Where the last access leads. -/
theorem victim_turn_mark (kind : Update) (before : BitTree (height + 1)) (leaf : Nat)
    (inside : leaf < 2 ^ (height + 1)) :
    if kind = .invalidate then victim (turn kind.mark before leaf) = leaf
    else victim (turn kind.mark before leaf) ≠ leaf := by
  cases kind with
  | touch => exact victim_turn_away before leaf
  | reset => exact victim_turn_away before leaf
  | invalidate => exact victim_turn_towards before leaf inside

/-- The policy with a number of leaves it accepts, after any calls, on a tree all whose
entries have been created. After any accesses to these the victim is one of them: the
one invalidated last, and not the one touched or reset last. From any bits, choosing a
victim and touching it gives each entry once in as many rounds as there are leaves. -/
theorem victims_of_tree (numLeaves : Nat) (atLeastTwo : 2 ≤ numLeaves) (policy : TreePLRU)
    (made : TreePLRU.make numLeaves = some policy) (calls : List Call) (system : System)
    (ran : Runs.run step { policy } calls = some system) (tree : Nat)
    (complete : (tree + 1) * numLeaves ≤ system.entries.length) :
    system.sharers tree = leaves numLeaves tree ∧
    (∀ accesses : List (Update × Fin numLeaves), ∃ (after : System) (victim : Fin numLeaves),
      Runs.run step system
        (accesses.map fun access => .update access.1 (tree * numLeaves + access.2)) = some after ∧
      after.policy.getVictim (system.sharers tree) = some (leafData numLeaves tree victim) ∧
      ∀ kind leaf, accesses.getLast? = some (kind, leaf) →
        if kind = .invalidate then victim = leaf else victim ≠ leaf) ∧
    ∀ (policy : TreePLRU) (bits : PLRUTree), policy.numLeaves = numLeaves →
      policy.trees[tree]? = some bits → bits.length = numLeaves - 1 →
      ∃ order : List Nat, order.Perm (List.range numLeaves) ∧
        policy.victims (system.sharers tree) numLeaves =
          some (order.map (leafData numLeaves tree)) := by
  obtain ⟨isPower, rfl⟩ : isPowerOf2 numLeaves ∧ { numLeaves } = policy := by
    simpa [TreePLRU.make] using made
  obtain ⟨height, power⟩ : ∃ height, numLeaves = 2 ^ (height + 1) := by
    obtain ⟨height, power⟩ := exists_pow_of_isPowerOf2 isPower
    cases height with
    | zero => rw [Nat.pow_zero] at power; omega
    | succ height => exact ⟨height, power⟩
  have positive : 0 < numLeaves := by omega
  have sound : Sound numLeaves system :=
    Runs.run_invariant (fun s call t sound _ done => sound.step power done) _ _ calls
      (Sound.start positive) (Runs.along_trivial _ _) ran
  have complete' : (tree + 1) * numLeaves ≤ system.policy.count := by
    rwa [sound.entries, List.length_map, List.length_range] at complete
  have sharers := sound.sharers_eq positive complete'
  refine ⟨sharers, ?_, ?_⟩
  · intro accesses
    have created : tree * numLeaves < system.policy.count := by
      rw [Nat.succ_mul] at complete'
      omega
    obtain ⟨_, has⟩ := sound.hasTree power tree _ created (Nat.mul_div_cancel _ positive)
    obtain ⟨after, bits', updated, has', last⟩ := sound.updates power complete' has accesses
    have inside : victim (subtree bits' (height + 1) 0) < numLeaves := power ▸ victim_lt _
    refine ⟨after, ⟨_, inside⟩, updated, ?_, ?_⟩
    · have chosen := has'.getVictim_eq
      rw [has'.numLeaves, ← power] at chosen
      rw [sharers, chosen]
    · intro kind leaf isLast
      obtain ⟨before, turned⟩ := last kind leaf isLast
      have leads := victim_turn_mark kind before leaf (power ▸ leaf.isLt)
      simp only [Fin.ext_iff, turned, ne_eq]
      exact leads
  · intro other bits sharing found _
    have has : HasTree other tree height bits := ⟨sharing.trans power, found, by omega⟩
    have chosen := has.victims_eq numLeaves
    rw [sharing] at chosen
    refine ⟨_, ?_, sharers ▸ chosen⟩
    have all := rounds_perm_range (subtree bits (height + 1) 0)
    rwa [← power] at all

/-- A tree of four leaves, of which the third and then the first are touched. -/
theorem victims_of_tree_afterTouch : ∃ (system after : System) (victim : Fin 4) (order : List Nat),
      Runs.run step { policy := { numLeaves := 4 } } (List.replicate 4 .instantiateEntry) =
        some system ∧
      Runs.run step system [.update .touch 2, .update .touch 0] = some after ∧
      after.policy.getVictim (system.sharers 0) = some (leafData 4 0 victim) ∧ victim ≠ 0 ∧
      order.Perm (List.range 4) ∧
      system.policy.victims (system.sharers 0) 4 = some (order.map (leafData 4 0)) := by
  obtain ⟨_, updates, rounds⟩ := victims_of_tree 4 (by decide) { numLeaves := 4 } (by decide)
    (List.replicate 4 .instantiateEntry) _ rfl 0 (by decide)
  obtain ⟨after, victim, touched, chosen, last⟩ := updates [(.touch, 2), (.touch, 0)]
  obtain ⟨order, all, victims⟩ := rounds
    ⟨4, 4, some 0, [[false, false, false]]⟩ [false, false, false] rfl rfl rfl
  exact ⟨_, after, victim, order, rfl, touched, chosen, last .touch 0 rfl, all, victims⟩

end RasCache.Mem.TreePlru
