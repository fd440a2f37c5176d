import Mathlib.Data.List.Basic

/-!
# Pools of entries

A pool hands out its entries from a free list and keeps the ones it has handed out
in a list of their own. Some of those are busy, and a third list has the ones that
are not. The lists and the two counters of a pool are updated one by one; `Sound`
says that they agree, and there is one lemma for each way an entry can move.
-/
namespace Pools

variable {α : Type*} [DecidableEq α]

/-- `held` are the entries handed out, `idle` the ones of them that are not busy. -/
structure Sound (busy : α → Bool) (free held idle : List α) (size busySize : Int) : Prop where
  once : ∀ x, free.count x + held.count x = 1
  idle : ∀ x, idle.count x = if busy x then 0 else held.count x
  size : size = held.length
  busySize : busySize = held.countP busy

variable {busy busy' : α → Bool} {free held idle idle' : List α} {size busySize : Int} {x : α}

omit [DecidableEq α] in
theorem countP_of_notMem (absent : x ∉ held) (others : ∀ y, y ≠ x → busy' y = busy y) :
    held.countP busy' = held.countP busy := by
  apply List.countP_congr
  intro y inside
  have other : y ≠ x := fun same => absent (same ▸ inside)
  rw [others y other]

/-- A test that changes for one element only, in a list that has it once. -/
theorem countP_of_once (once : held.count x = 1) (others : ∀ y, y ≠ x → busy' y = busy y) :
    held.countP busy' + (busy x).toNat = held.countP busy + (busy' x).toNat := by
  have mem : x ∈ held := List.count_pos_iff.mp (by omega)
  have gone : x ∉ held.erase x := by
    rw [← List.count_eq_zero, List.count_erase_self, once]
  have apart := List.perm_cons_erase mem
  have rest := countP_of_notMem gone others
  rw [apart.countP_eq, apart.countP_eq, List.countP_cons, List.countP_cons, rest]
  cases busy x <;> cases busy' x <;> simp

namespace Sound

variable (sound : Sound busy free held idle size busySize)

include sound

theorem held_once (mem : x ∈ held) : held.count x = 1 := by
  have once := sound.once x
  have positive := List.count_pos_iff.mpr mem
  omega

theorem mem_idle_iff : x ∈ idle ↔ x ∈ held ∧ busy x = false := by
  have count := sound.idle x
  rw [← List.count_pos_iff, ← List.count_pos_iff, count]
  cases busy x <;> simp

theorem mem_free_iff : x ∈ free ↔ x ∉ held := by
  have once := sound.once x
  rw [← List.count_pos_iff, ← List.count_eq_zero]
  omega

theorem nodup : free.Nodup ∧ held.Nodup ∧ idle.Nodup := by
  simp only [List.nodup_iff_count]
  refine ⟨fun x => ?_, fun x => ?_, fun x => ?_⟩
  · have once := sound.once x
    omega
  · have once := sound.once x
    omega
  · have once := sound.once x
    rw [sound.idle x]
    split <;> omega

theorem perm (same : idle'.Perm idle) : Sound busy free held idle' size busySize :=
  { sound with idle := fun x => (same.count_eq x).trans (sound.idle x) }

omit sound in
theorem allocate (sound : Sound busy (x :: free) held idle size busySize)
    (others : ∀ y, y ≠ x → busy' y = busy y) (starts : busy' x = false)
    (added : idle'.Perm (x :: idle)) :
    Sound busy' free (held ++ [x]) idle' (size + 1) busySize := by
  have here := sound.once x
  rw [List.count_cons_self] at here
  have absent : held.count x = 0 := by omega
  constructor
  · intro y
    have once := sound.once y
    rw [List.count_cons] at once
    rw [List.count_append, List.count_singleton]
    omega
  · intro y
    rw [added.count_eq, List.count_cons, List.count_append, List.count_singleton, sound.idle y]
    by_cases same : x = y
    · subst same
      simp [starts, absent]
    · simp [same, others y (Ne.symm same)]
  · simp [sound.size]
  · rw [List.countP_append, countP_of_notMem (List.count_eq_zero.mp absent) others, sound.busySize]
    simp [starts]

section

variable (mem : x ∈ held) (others : ∀ y, y ≠ x → busy' y = busy y)
include mem others

theorem mark (before : busy x = false) (after : busy' x = true) :
    Sound busy' free held (idle.erase x) size (busySize + 1) := by
  have once := sound.held_once mem
  refine { sound with idle := fun y => ?_, busySize := ?_ }
  · have count := sound.idle y
    rw [List.count_erase, count]
    by_cases same : x = y
    · subst same
      simp [before, after, once]
    · simp [same, others y (Ne.symm same)]
  · have changed := countP_of_once once others
    rw [before, after] at changed
    rw [sound.busySize]
    simp at changed
    omega

theorem unmark (before : busy x = true) (after : busy' x = false) (added : idle'.Perm (x :: idle)) :
    Sound busy' free held idle' size (busySize - 1) := by
  have once := sound.held_once mem
  refine { sound with idle := fun y => ?_, busySize := ?_ }
  · have count := sound.idle y
    rw [added.count_eq, List.count_cons, count]
    by_cases same : x = y
    · subst same
      simp [before, after, once]
    · simp [same, others y (Ne.symm same)]
  · have changed := countP_of_once once others
    rw [before, after] at changed
    rw [sound.busySize]
    simp at changed
    omega

theorem release :
    Sound busy' (x :: free) (held.erase x) (if busy x then idle else idle.erase x) (size - 1)
      (if busy x then busySize - 1 else busySize) := by
  have once := sound.held_once mem
  have gone : (held.erase x).count x = 0 := by
    rw [List.count_erase_self, once]
  constructor
  · -- the entry moves from one list to the other
    intro y
    have before := sound.once y
    rw [List.count_cons, List.count_erase]
    by_cases same : x = y
    · subst same
      simp
      omega
    · simp [same]
      omega
  · -- a busy entry was not idle, so there is nothing to take out
    intro y
    have count := sound.idle y
    by_cases same : x = y
    · subst same
      cases state : busy x <;> simp [state, count, once, gone]
    · cases state : busy x <;>
        simp [List.count_erase, count, same, others y (Ne.symm same)]
  · have positive := List.length_pos_of_mem mem
    rw [sound.size, List.length_erase_of_mem mem]
    omega
  · have apart := (List.perm_cons_erase mem).countP_eq busy
    rw [List.countP_cons] at apart
    rw [countP_of_notMem (List.count_eq_zero.mp gone) others, sound.busySize]
    cases state : busy x <;> simp [state] at apart ⊢ <;> omega

end

end Sound

end Pools
