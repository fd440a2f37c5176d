import Mathlib.Data.List.Sort
import Mathlib.Data.List.Nodup

/-!
# Sorted lists kept as lists of stacks

The elements of one key form a stack, and the stacks are sorted by key. Read from
the front, such a structure is a sorted list in which the element pushed last
comes first among those of its key: pushing is `List.orderedInsert`, and taking
an element out is `List.erase`.
-/
namespace Stacks

variable {α K : Type*}

/-- A stack that is not empty. -/
structure Stack (α : Type*) where
  top : α
  below : List α

def Stack.items (s : Stack α) : List α := s.top :: s.below

def contents (bins : List (Stack α)) : List α := bins.flatMap Stack.items

@[simp] theorem contents_nil : contents ([] : List (Stack α)) = [] := rfl

@[simp] theorem contents_cons (s : Stack α) (rest : List (Stack α)) :
    contents (s :: rest) = s.top :: (s.below ++ contents rest) := rfl

theorem length_le_contents (bins : List (Stack α)) : bins.length ≤ (contents bins).length := by
  induction bins with
  | nil => exact Nat.le_refl _
  | cons =>
    simp only [contents_cons, List.length_cons, List.length_append]
    omega

variable [LinearOrder K] (key : α → K)

/-- Put `e` on the stack of its key. -/
def push (e : α) : List (Stack α) → List (Stack α)
  | [] => [⟨e, []⟩]
  | s :: rest =>
    if key e < key s.top then ⟨e, []⟩ :: s :: rest
    else if key e = key s.top then ⟨e, s.items⟩ :: rest
    else s :: push e rest

section Remove

variable [DecidableEq α]

def Stack.remove (e : α) (s : Stack α) : Option (Stack α) :=
  if e = s.top then s.below.head?.map fun top => ⟨top, s.below.tail⟩
  else some ⟨s.top, s.below.erase e⟩

/-- Take `e` out of the stack of its key. -/
def remove (e : α) : List (Stack α) → List (Stack α)
  | [] => []
  | s :: rest => if key s.top = key e then (s.remove e).toList ++ rest else s :: remove e rest

end Remove

/-- Each stack has one key, the keys ascend, and no element occurs twice. -/
structure Sorted (bins : List (Stack α)) : Prop where
  level : ∀ s ∈ bins, ∀ e ∈ s.below, key e = key s.top
  ascending : bins.Pairwise fun s t => key s.top < key t.top
  nodup : (contents bins).Nodup

variable {key} {s : Stack α} {rest : List (Stack α)}

theorem Sorted.tail (sorted : Sorted key (s :: rest)) :
    Sorted key rest where
  level t mem := sorted.level t (List.mem_cons_of_mem s mem)
  ascending := sorted.ascending.of_cons
  nodup := by
    have := sorted.nodup
    rw [contents_cons] at this
    exact (List.nodup_append.mp this.of_cons).2.1

variable {bins : List (Stack α)}

theorem Sorted.key_eq (sorted : Sorted key bins) (s : Stack α) (mem : s ∈ bins) (e : α)
    (item : e ∈ s.items) : key e = key s.top := by
  rcases List.mem_cons.mp item with rfl | below
  · rfl
  · exact sorted.level s mem e below

/-- Only the keys of the elements count. -/
theorem Sorted.congr {key' : α → K} (sorted : Sorted key bins)
    (same : ∀ e ∈ contents bins, key' e = key e) : Sorted key' bins where
  level s mem e below := by
    have inside : ∀ x ∈ s.items, x ∈ contents bins := fun x item =>
      List.mem_flatMap.mpr ⟨s, mem, item⟩
    rw [same e (inside e (by simp [Stack.items, below])),
      same s.top (inside s.top (by simp [Stack.items]))]
    exact sorted.level s mem e below
  ascending := by
    refine sorted.ascending.imp_of_mem fun {s t} first second before => ?_
    rw [same s.top (List.mem_flatMap.mpr ⟨s, first, by simp [Stack.items]⟩),
      same t.top (List.mem_flatMap.mpr ⟨t, second, by simp [Stack.items]⟩)]
    exact before
  nodup := sorted.nodup

section

variable (sorted : Sorted key (s :: rest)) (e : α)
include sorted e

theorem Sorted.later (mem : e ∈ contents rest) : key s.top < key e := by
  obtain ⟨t, among, item⟩ := List.mem_flatMap.mp mem
  rw [sorted.tail.key_eq t among e item]
  exact List.rel_of_pairwise_cons sorted.ascending among

theorem Sorted.item_of_key (mem : e ∈ contents (s :: rest)) (same : key s.top = key e) :
    e ∈ s.items := by
  rcases List.mem_append.mp (show e ∈ s.items ++ contents rest from mem) with item | behind
  · exact item
  · exact absurd same (ne_of_lt (sorted.later e behind))

theorem Sorted.behind_of_key (mem : e ∈ contents (s :: rest)) (other : key s.top ≠ key e) :
    e ∈ contents rest := by
  rcases List.mem_append.mp (show e ∈ s.items ++ contents rest from mem) with item | behind
  · exact absurd (sorted.key_eq s (by simp) e item).symm other
  · exact behind

end

/-- Behind elements of lower keys the place is not there yet. -/
theorem orderedInsert_append (e : α) (front back : List α) (lower : ∀ x ∈ front, key x < key e) :
    (front ++ back).orderedInsert (fun a b => key a ≤ key b) e =
      front ++ back.orderedInsert (fun a b => key a ≤ key b) e := by
  induction front with
  | nil => rfl
  | cons x _ ih =>
    have first := lower x (by simp)
    rw [List.cons_append, List.orderedInsert_cons, if_neg (not_le.mpr first),
      ih fun y mem => lower y (by simp [mem]), List.cons_append]

theorem contents_push (e : α) {bins : List (Stack α)} (sorted : Sorted key bins) :
    contents (push key e bins) = (contents bins).orderedInsert (fun a b => key a ≤ key b) e := by
  induction bins with
  | nil => rfl
  | cons s rest ih =>
    simp only [push]
    split
    next lower => simp [lower.le]
    next notLower =>
      split
      next same => simp [Stack.items, same]
      next other =>
        have higher : key s.top < key e := lt_of_le_of_ne (not_lt.mp notLower) (Ne.symm other)
        have front : ∀ x ∈ s.items, key x < key e := by
          intro x item
          rw [sorted.key_eq s (by simp) x item]
          exact higher
        have inserted := orderedInsert_append e s.items (contents rest) front
        rw [← ih sorted.tail] at inserted
        exact inserted.symm

theorem mem_contents_push (e x : α) (bins : List (Stack α)) (sorted : Sorted key bins) :
    x ∈ contents (push key e bins) ↔ x = e ∨ x ∈ contents bins := by
  rw [contents_push e sorted, List.mem_orderedInsert]

/-- The top of the first stack after a push. -/
theorem push_ascending {e : α} {bins : List (Stack α)} {s : Stack α}
    (below : ∀ t ∈ bins, key s.top < key t.top) (lower : key s.top < key e) :
    ∀ t ∈ push key e bins, key s.top < key t.top := by
  induction bins with
  | nil => simpa [push] using lower
  | cons first rest ih =>
    have next := below first (by simp)
    have others : ∀ t ∈ rest, key s.top < key t.top := fun t mem => below t (by simp [mem])
    simp only [push]
    split
    · simpa using ⟨lower, next, others⟩
    · split
      · simpa using ⟨lower, others⟩
      · simpa using ⟨next, ih others⟩

theorem sorted_push {e : α} {bins : List (Stack α)} (sorted : Sorted key bins)
    (fresh : e ∉ contents bins) : Sorted key (push key e bins) := by
  have nodup : (contents (push key e bins)).Nodup := by
    rw [contents_push e sorted, (List.perm_orderedInsert _ e _).nodup_iff]
    exact List.nodup_cons.mpr ⟨fresh, sorted.nodup⟩
  suffices shape : (∀ s ∈ push key e bins, ∀ x ∈ s.below, key x = key s.top) ∧
      (push key e bins).Pairwise fun s t => key s.top < key t.top from ⟨shape.1, shape.2, nodup⟩
  clear nodup fresh
  induction bins with
  | nil => simp [push]
  | cons s rest ih =>
    have ascending := List.pairwise_cons.mp sorted.ascending
    simp only [push]
    split
    -- a new stack in front
    next lower =>
      refine ⟨?_, ?_⟩
      · simpa using sorted.level
      · exact List.pairwise_cons.mpr ⟨List.forall_mem_cons.mpr
          ⟨lower, fun t later => lower.trans (ascending.1 t later)⟩, sorted.ascending⟩
    next notLower =>
      split
      -- on top of the stack with that key
      next same =>
        refine ⟨List.forall_mem_cons.mpr ⟨fun x under => ?_, sorted.tail.level⟩,
          List.pairwise_cons.mpr ⟨same ▸ ascending.1, ascending.2⟩⟩
        exact (sorted.key_eq s (by simp) x under).trans same.symm
      -- further back
      next other =>
        have higher : key s.top < key e := lt_of_le_of_ne (not_lt.mp notLower) (Ne.symm other)
        obtain ⟨level, rest_ascending⟩ := ih sorted.tail
        exact ⟨List.forall_mem_cons.mpr ⟨sorted.level s (by simp), level⟩,
          List.pairwise_cons.mpr ⟨push_ascending ascending.1 higher, rest_ascending⟩⟩

section Remove

variable [DecidableEq α]

theorem items_remove {e : α} {s : Stack α} (item : e ∈ s.items) :
    contents (s.remove e).toList = s.items.erase e := by
  simp only [Stack.remove]
  split
  next top =>
    subst top
    simp only [Stack.items, List.erase_cons_head]
    cases s.below with
    | nil => rfl
    | cons => simp
  next other =>
    simp only [Stack.items, Option.toList_some, contents_cons, contents_nil, List.append_nil]
    rw [List.erase_cons_tail]
    simpa using Ne.symm other

theorem contents_remove (e : α) (bins : List (Stack α)) (sorted : Sorted key bins)
    (mem : e ∈ contents bins) : contents (remove key e bins) = (contents bins).erase e := by
  induction bins with
  | nil => simp at mem
  | cons s rest ih =>
    have whole : contents (s :: rest) = s.items ++ contents rest := rfl
    rw [whole]
    simp only [remove]
    split
    next same =>
      have item := sorted.item_of_key e mem same
      rw [List.erase_append_left _ item, ← items_remove item]
      exact List.flatMap_append
    next other =>
      have absent : e ∉ s.items := fun item => other (sorted.key_eq s (by simp) e item).symm
      rw [List.erase_append_right _ absent, ← ih sorted.tail (sorted.behind_of_key e mem other)]
      rfl

omit [LinearOrder K] in
/-- What is left of a stack has its key. -/
theorem remove_level {e : α} {s left : Stack α} (level : ∀ x ∈ s.below, key x = key s.top)
    (removed : s.remove e = some left) :
    key left.top = key s.top ∧ ∀ x ∈ left.below, key x = key left.top := by
  simp only [Stack.remove] at removed
  split at removed
  · cases shape : s.below with
    | nil => simp [shape] at removed
    | cons first =>
      simp only [shape, List.head?_cons, Option.map_some, List.tail_cons,
        Option.some.injEq] at removed
      rw [shape] at level
      subst removed
      have same := level first (by simp)
      exact ⟨same, fun x under => (level x (by simp [under])).trans same.symm⟩
  · cases removed
    exact ⟨rfl, fun x under => level x (List.mem_of_mem_erase under)⟩

/-- Removing an element does not bring in a lower key. -/
theorem remove_ascending {e : α} {bins : List (Stack α)} (sorted : Sorted key bins) (bound : K)
    (below : ∀ t ∈ bins, bound < key t.top) : ∀ t ∈ remove key e bins, bound < key t.top := by
  induction bins with
  | nil => simp [remove]
  | cons s rest ih =>
    have others : ∀ t ∈ rest, bound < key t.top := fun t mem => below t (by simp [mem])
    simp only [remove]
    split
    · intro t mem
      rcases List.mem_append.mp mem with left | later
      · rw [(remove_level (sorted.level s (by simp)) (Option.mem_toList.mp left)).1]
        exact below s (by simp)
      · exact others t later
    · simpa using ⟨below s (by simp), ih sorted.tail others⟩

theorem sorted_remove (e : α) (bins : List (Stack α)) (sorted : Sorted key bins)
    (mem : e ∈ contents bins) : Sorted key (remove key e bins) := by
  have nodup : (contents (remove key e bins)).Nodup := by
    rw [contents_remove e bins sorted mem]
    exact sorted.nodup.erase e
  suffices shape : (∀ s ∈ remove key e bins, ∀ x ∈ s.below, key x = key s.top) ∧
      (remove key e bins).Pairwise fun s t => key s.top < key t.top from ⟨shape.1, shape.2, nodup⟩
  clear nodup mem
  induction bins with
  | nil => simp [remove]
  | cons s rest ih =>
    have ascending := List.pairwise_cons.mp sorted.ascending
    simp only [remove]
    split
    · -- a stack may lose its last item and goes
      cases removed : s.remove e with
      | none => exact ⟨sorted.tail.level, ascending.2⟩
      | some left =>
        obtain ⟨same, level⟩ := remove_level (sorted.level s (by simp)) removed
        exact ⟨List.forall_mem_cons.mpr ⟨level, sorted.tail.level⟩,
          List.pairwise_cons.mpr ⟨same ▸ ascending.1, ascending.2⟩⟩
    · obtain ⟨level, rest_ascending⟩ := ih sorted.tail
      exact ⟨List.forall_mem_cons.mpr ⟨sorted.level s (by simp), level⟩, List.pairwise_cons.mpr
        ⟨remove_ascending sorted.tail (key s.top) ascending.1, rest_ascending⟩⟩

end Remove

end Stacks
