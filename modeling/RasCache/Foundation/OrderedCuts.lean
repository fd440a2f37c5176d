import Mathlib.Data.List.TakeWhile

/-!
# Cutting ordered lists

A list that is ordered by `R` is cut where a test fails for the first time. When the
test holds below every element for which it holds, the two parts are exactly the
elements with the test and those without it.
-/
namespace OrderedCuts

variable {α : Type*} {R : α → α → Prop} {p : α → Bool} {list : List α}

theorem not_of_mem_dropWhile (ordered : list.Pairwise R)
    (down : ∀ a b, R a b → p b = true → p a = true) : ∀ x ∈ list.dropWhile p, p x = false := by
  induction list with
  | nil => simp
  | cons a _ ih =>
    obtain ⟨first, ordered⟩ := List.pairwise_cons.mp ordered
    rw [List.dropWhile_cons]
    split
    · exact ih ordered
    next stops =>
      intro x mem
      rcases List.mem_cons.mp mem with rfl | later
      · simpa using stops
      · cases holds : p x with
        | false => rfl
        | true => exact absurd (down a x (first x later) holds) stops

theorem mem_cut {x : α} (mem : x ∈ list) : x ∈ list.takeWhile p ∨ x ∈ list.dropWhile p := by
  rw [← List.mem_append, List.takeWhile_append_dropWhile]
  exact mem

end OrderedCuts
