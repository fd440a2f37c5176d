import Mathlib.Data.List.Sort

/-!
# Lists in the order of a key

Elements stand in a list in the order of their keys, which a table outside of the
list gives, so that a key can change while its element is in the list. A new
element is added behind the elements with the same key. When the key of one
element changes where it stands, the order survives exactly when the new key fits
between the elements before it and those behind it.
-/
namespace KeyedLists

variable {α β : Type*} [LinearOrder β] (key : α → β)

def Sorted (l : List α) : Prop := l.Pairwise fun first second => key first ≤ key second

/-- The element goes to the back when the last key is not greater, otherwise in
front of the first element with a greater key. -/
def add (l : List α) (x : α) : List α :=
  match l.getLast? with
  | none => [x]
  | some last =>
    if key last ≤ key x then l ++ [x]
    else l.orderedInsert (fun first second => key first < key second) x

theorem add_perm (l : List α) (x : α) : (add key l x).Perm (x :: l) := by
  unfold add
  split
  next empty =>
    rw [List.getLast?_eq_none_iff.mp empty]
  next =>
    split
    · exact List.perm_append_singleton x l
    · exact List.perm_orderedInsert _ x l

theorem mem_add (l : List α) (x y : α) : y ∈ add key l x ↔ y = x ∨ y ∈ l := by
  rw [(add_perm key l x).mem_iff, List.mem_cons]

variable {key}

variable {l : List α}

section

variable (sorted : Sorted key l)
include sorted

/-- No key is greater than the last one. -/
theorem Sorted.le_last {last : α} (ends : l.getLast? = some last) (y : α) (mem : y ∈ l) :
    key y ≤ key last := by
  obtain ⟨_, rfl⟩ := List.getLast?_eq_some_iff.mp ends
  rcases List.mem_append.mp mem with early | equal
  · exact (List.pairwise_append.mp sorted).2.2 y early last (List.mem_singleton_self last)
  · rw [List.mem_singleton.mp equal]

theorem Sorted.orderedInsert (x : α) :
    Sorted key (l.orderedInsert (fun first second => key first < key second) x) := by
  induction l with
  | nil => exact List.pairwise_singleton _ x
  | cons first _ ih =>
    obtain ⟨least, sorted'⟩ := List.pairwise_cons.mp sorted
    rw [List.orderedInsert_cons]
    split
    next before =>
      -- the first key is the least of the list, and the new one is below it
      apply List.pairwise_cons.mpr ⟨_, sorted⟩
      exact List.forall_mem_cons.mpr ⟨le_of_lt before,
        fun other mem => le_trans (le_of_lt before) (least other mem)⟩
    next behind =>
      apply List.pairwise_cons.mpr ⟨_, ih sorted'⟩
      intro other mem
      rcases (List.mem_orderedInsert _).mp mem with rfl | mem
      · exact le_of_not_gt behind
      · exact least other mem

theorem Sorted.add (x : α) : Sorted key (add key l x) := by
  unfold KeyedLists.add
  split
  next => exact List.pairwise_singleton _ x
  next ends =>
    split
    next behind =>
      apply List.pairwise_append.mpr ⟨sorted, List.pairwise_singleton _ x, _⟩
      intro other mem _ same
      rw [List.mem_singleton.mp same]
      exact le_trans (sorted.le_last ends other mem) behind
    next => exact sorted.orderedInsert x

theorem Sorted.head_le {first : α} (starts : l.head? = some first) (y : α) (mem : y ∈ l) :
    key first ≤ key y := by
  obtain ⟨_, rfl⟩ := List.head?_eq_some_iff.mp starts
  rcases List.mem_cons.mp mem with rfl | behind
  · exact le_refl _
  · exact (List.pairwise_cons.mp sorted).1 y behind

end

variable {key' : α → β}

/-- Only the keys of the elements count. -/
theorem sorted_congr (same : ∀ y ∈ l, key' y = key y) : Sorted key' l ↔ Sorted key l := by
  apply List.Pairwise.iff_of_mem
  intro first second one two
  rw [same first one, same second two]

theorem sorted_changed_iff {front back : List α} {x : α} (sorted : Sorted key (front ++ x :: back))
    (same : ∀ y ∈ front ++ back, key' y = key y) : Sorted key' (front ++ x :: back) ↔
      (∀ y ∈ front, key y ≤ key' x) ∧ ∀ y ∈ back, key' x ≤ key y := by
  obtain ⟨before, behind, across⟩ := List.pairwise_append.mp sorted
  have sameFront : ∀ y ∈ front, key' y = key y := fun y mem => same y (List.mem_append_left _ mem)
  have sameBack : ∀ y ∈ back, key' y = key y := fun y mem => same y (List.mem_append_right _ mem)
  constructor
  · -- the element is compared with both parts
    intro changed
    obtain ⟨-, ordered, crossing⟩ := List.pairwise_append.mp changed
    constructor
    · intro y mem
      rw [← sameFront y mem]
      exact crossing y mem x List.mem_cons_self
    · intro y mem
      rw [← sameBack y mem]
      exact (List.pairwise_cons.mp ordered).1 y mem
  · -- the parts themselves are in order as before
    rintro ⟨low, high⟩
    have ordered : Sorted key' (x :: back) := by
      apply List.pairwise_cons.mpr ⟨_, (sorted_congr sameBack).mpr (List.pairwise_cons.mp behind).2⟩
      intro y mem
      rw [sameBack y mem]
      exact high y mem
    apply List.pairwise_append.mpr ⟨(sorted_congr sameFront).mpr before, ordered, _⟩
    · intro y mem z other
      rw [sameFront y mem]
      rcases List.mem_cons.mp other with rfl | other
      · exact low y mem
      · rw [sameBack z other]
        exact across y mem z (List.mem_cons_of_mem x other)

end KeyedLists
