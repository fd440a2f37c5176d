import Mathlib.Data.List.DropRight

/-!
# Queues with running indices

A queue whose entries keep their index while others come and go: the index of
the head grows when entries leave at the front, and the index behind the last
entry shrinks when entries leave at the back. A position saved by an observer is
useful as long as it separates the entries before the observer from those after
it; the rules say which operations keep it so.
-/
namespace IndexedQueue

structure Queue (α : Type*) where
  head : Nat
  items : List α

variable {α : Type*}

namespace Queue

/-- The index behind the last entry. -/
def finish (queue : Queue α) : Nat := queue.head + queue.items.length

/-- The entries from an index on. There are none to be read outside the queue. -/
def fromIndex (queue : Queue α) (index : Nat) : Option (List α) :=
  if queue.head ≤ index ∧ index ≤ queue.finish then some (queue.items.drop (index - queue.head))
  else none

def push (queue : Queue α) (entry : α) : Queue α :=
  { queue with items := queue.items ++ [entry] }

/-- Entries leave at the front as long as they meet the condition. -/
def popFrontWhile (leaves : α → Bool) (queue : Queue α) : Queue α where
  head := queue.head + (queue.items.takeWhile leaves).length
  items := queue.items.dropWhile leaves

/-- Entries leave at the back as long as they meet the condition. -/
def popBackWhile (leaves : α → Bool) (queue : Queue α) : Queue α :=
  { queue with items := queue.items.rdropWhile leaves }

end Queue

open Queue

/-- Exactly the entries in front of the position are older than the number. -/
structure Separates (number : α → Nat) (queue : Queue α) (position n : Nat) : Prop where
  within : position ≤ queue.finish
  older : ∀ offset entry, queue.items[offset]? = some entry →
    (number entry < n ↔ queue.head + offset < position)

variable {number : α → Nat} {queue : Queue α} {position n : Nat}

/-- The end of the queue separates what is in it from what will follow. -/
theorem separates_finish (older : ∀ entry ∈ queue.items, number entry < n) :
    Separates number queue queue.finish n where
  within := Nat.le_refl _
  older := by
    intro _ entry here
    obtain ⟨_, -⟩ := List.getElem?_eq_some_iff.mp here
    have young := older entry (List.mem_of_getElem? here)
    simp only [finish]
    omega

namespace Separates

variable (separates : Separates number queue position n)
include separates

/-- Only the indices and the numbers count. -/
theorem of_numbers {other : Queue α}
    (head : other.head = queue.head) (same : other.items.map number = queue.items.map number) :
    Separates number other position n where
  within := by
    have within := separates.within
    have length := congrArg List.length same
    simp only [List.length_map] at length
    simp only [finish] at within ⊢
    omega
  older := by
    intro offset entry here
    have numbered : (queue.items.map number)[offset]? = some (number entry) := by
      rw [← same, List.getElem?_map, here]
      rfl
    rw [List.getElem?_map, Option.map_eq_some_iff] at numbered
    obtain ⟨original, placed, equal⟩ := numbered
    rw [head, ← equal]
    exact separates.older offset original placed

theorem push (entry : α)
    (younger : n ≤ number entry) : Separates number (queue.push entry) position n where
  within := by
    have within := separates.within
    simp only [finish, Queue.push, List.length_append, List.length_singleton] at within ⊢
    omega
  older := by
    intro offset other here
    simp only [Queue.push] at here ⊢
    by_cases inside : offset < queue.items.length
    · rw [List.getElem?_append_left inside] at here
      exact separates.older offset other here
    · -- Only the new entry is behind the others.
      have within := separates.within
      rw [List.getElem?_append_right (by omega)] at here
      have same := List.mem_singleton.mp (List.mem_of_getElem? here)
      subst same
      simp only [finish] at within
      omega

/-- Entries may leave at the front at any time. -/
theorem popFrontWhile (leaves : α → Bool) :
    Separates number (queue.popFrontWhile leaves) position n := by
  have split : queue.items.takeWhile leaves ++ queue.items.dropWhile leaves = queue.items :=
    List.takeWhile_append_dropWhile
  constructor
  · have within := separates.within
    have total := congrArg List.length split
    simp only [List.length_append] at total
    simp only [finish, Queue.popFrontWhile] at within ⊢
    omega
  · intro offset entry here
    simp only [Queue.popFrontWhile] at here ⊢
    have original : queue.items[(queue.items.takeWhile leaves).length + offset]? = some entry := by
      rw [← here, ← split, List.getElem?_append_right (by simp), split]
      simp
    rw [separates.older _ entry original]
    omega

omit separates in
theorem popBack {head : Nat} {items : List α} {entry : α}
    (separates : Separates number ⟨head, items ++ [entry]⟩ position n)
    (younger : n ≤ number entry) : Separates number ⟨head, items⟩ position n where
  within := by
    have last := separates.older items.length entry (by simp)
    simp only [finish] at last ⊢
    omega
  older := by
    intro offset other here
    obtain ⟨bound, -⟩ := List.getElem?_eq_some_iff.mp here
    exact separates.older offset other (by rw [List.getElem?_append_left bound]; exact here)

/-- Only younger entries may leave at the back. -/
theorem popBackWhile (leaves : α → Bool)
    (younger : ∀ entry ∈ queue.items, leaves entry = true → n ≤ number entry) :
    Separates number (queue.popBackWhile leaves) position n := by
  obtain ⟨_, items⟩ := queue
  induction items using List.reverseRecOn with
  | nil => simpa [Queue.popBackWhile] using separates
  | append_singleton items last ih =>
    simp only [Queue.popBackWhile]
    by_cases left : leaves last = true
    · rw [List.rdropWhile_concat_pos leaves items last left]
      have young := younger last (by simp) left
      exact ih (separates.popBack young) fun entry mem => younger entry (by simp_all)
    · rw [List.rdropWhile_concat_neg leaves items last left]
      exact separates

/-- A position that was not passed by the head can be read from. Behind it are
exactly the entries that are not older. -/
theorem fromIndex (ahead : queue.head ≤ position) : ∃ rest, queue.fromIndex position = some rest ∧
      (∀ entry ∈ queue.items, n ≤ number entry → entry ∈ rest) ∧ rest <:+ queue.items := by
  refine ⟨queue.items.drop (position - queue.head), ?_, ?_, List.drop_suffix _ _⟩
  · simp only [Queue.fromIndex, ahead, separates.within, and_self, if_true]
  · intro entry mem _
    obtain ⟨offset, bound, here⟩ := List.mem_iff_getElem.mp mem
    have older := separates.older offset entry (by rw [List.getElem?_eq_getElem bound, here])
    have behind : position - queue.head ≤ offset := by omega
    have placed : (queue.items.drop (position - queue.head))[offset - (position - queue.head)]? =
        some entry := by
      rw [List.getElem?_drop, Nat.add_sub_cancel' behind, List.getElem?_eq_getElem bound, here]
    exact List.mem_of_getElem? placed

end Separates

end IndexedQueue
