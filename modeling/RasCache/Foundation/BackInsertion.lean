import Mathlib.Data.List.DropRight
import Mathlib.Data.List.Perm.Basic

/-!
# Insertion from the back of a list

A new element walks from the back of a list towards the front, past the elements
that let it through, and stays behind the first one that does not. The elements
keep their order, so an order on the list survives when the new element fits
behind the one that stopped it and before the ones it passed.
-/
namespace BackInsertion

variable {α : Type*} (passes : α → Bool)

def insertBack (x : α) (l : List α) : List α := l.rdropWhile passes ++ x :: l.rtakeWhile passes

theorem insertBack_perm (x : α) (l : List α) : (insertBack passes x l).Perm (x :: l) := by
  have walk : (l.rdropWhile passes ++ x :: l.rtakeWhile passes).Perm
      (x :: (l.rdropWhile passes ++ l.rtakeWhile passes)) := List.perm_middle
  rwa [List.rdropWhile_append_rtakeWhile] at walk

theorem mem_insertBack {passes : α → Bool} {x y : α} {l : List α} :
    y ∈ insertBack passes x l ↔ y = x ∨ y ∈ l := by
  rw [(insertBack_perm passes x l).mem_iff, List.mem_cons]

theorem insertBack_concat (x y : α) (l : List α) : insertBack passes x (l ++ [y]) =
    if passes y then insertBack passes x l ++ [y] else l ++ [y, x] := by
  unfold insertBack
  split
  next passed =>
    rw [List.rdropWhile_concat_pos _ _ _ passed, List.rtakeWhile_concat_pos _ _ _ passed,
      List.append_assoc, List.cons_append]
  next stops =>
    rw [List.rdropWhile_concat_neg _ _ _ stops, List.rtakeWhile_concat_neg _ _ _ stops,
      List.append_assoc, List.singleton_append]

/-- Past every element the walk ends at the front. -/
theorem insertBack_of_all (x : α) {l : List α} (all : l.rdropWhile passes = []) :
    insertBack passes x l = x :: l := by
  have behind : l.rtakeWhile passes = l :=
    List.rtakeWhile_eq_self_iff.mpr (List.rdropWhile_eq_nil_iff.mp all)
  rw [insertBack, all, behind, List.nil_append]

/-- A walk that is stopped leaves the first element where it is. -/
theorem insertBack_head (x : α) {l : List α} (stopped : l.rdropWhile passes ≠ []) :
    (insertBack passes x l).head? = l.head? := by
  have whole : l.rdropWhile passes ++ l.rtakeWhile passes = l := List.rdropWhile_append_rtakeWhile
  rw [insertBack, List.head?_append_of_ne_nil _ stopped, ← List.head?_append_of_ne_nil _ stopped,
    whole]

theorem insertBack_pairwise {R : α → α → Prop} (x : α) {l : List α} (ordered : l.Pairwise R)
    (ahead : ∀ y ∈ l, ∀ z ∈ l, passes z = false → y = z ∨ R y z → R y x)
    (behind : ∀ y ∈ l, passes y = true → R x y) : (insertBack passes x l).Pairwise R := by
  have front : l.rdropWhile passes <+: l := List.rdropWhile_prefix passes l
  have back : l.rtakeWhile passes <:+ l := List.rtakeWhile_suffix passes l
  have whole : (l.rdropWhile passes ++ l.rtakeWhile passes).Pairwise R := by
    rwa [List.rdropWhile_append_rtakeWhile]
  obtain ⟨frontOrdered, backOrdered, across⟩ := List.pairwise_append.mp whole
  refine List.pairwise_append.mpr ⟨frontOrdered, List.pairwise_cons.mpr ⟨?_, backOrdered⟩, ?_⟩
  · intro y mem
    exact behind y (back.mem mem) (List.mem_rtakeWhile_imp mem)
  · intro y mem z later
    rcases List.mem_cons.mp later with rfl | later
    · -- the last element of the front part stopped the walk, and `y` is not behind it
      have some := List.ne_nil_of_mem mem
      have stops := List.rdropWhile_last_not passes l some
      have last := List.getLast_mem some
      refine ahead y (front.mem mem) _ (front.mem last) (by simpa using stops) ?_
      rw [← List.dropLast_append_getLast some] at mem frontOrdered
      rcases List.mem_append.mp mem with earlier | same
      · exact .inr ((List.pairwise_append.mp frontOrdered).2.2 y earlier _
          (List.mem_singleton_self _))
      · exact .inl (List.mem_singleton.mp same)
    · exact across y mem z later

/-- The same behind elements that the walk does not reach. -/
theorem append_insertBack_pairwise {R : α → α → Prop} {x : α} {first l : List α}
    (ordered : (first ++ l).Pairwise R) (before : ∀ y ∈ first, R y x)
    (ahead : ∀ y ∈ l, ∀ z ∈ l, passes z = false → y = z ∨ R y z → R y x)
    (behind : ∀ y ∈ l, passes y = true → R x y) :
    (first ++ insertBack passes x l).Pairwise R := by
  obtain ⟨ordered, rest, across⟩ := List.pairwise_append.mp ordered
  refine List.pairwise_append.mpr ⟨ordered, insertBack_pairwise passes x rest ahead behind, ?_⟩
  intro y early z late
  rcases mem_insertBack.mp late with rfl | late
  · exact before y early
  · exact across y early z late

end BackInsertion
