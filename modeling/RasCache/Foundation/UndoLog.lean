import Mathlib.Data.List.Basic

/-!
# Undo logs and checkpoints

Two ways to be able to return to an earlier value. A checkpointing store saves
its whole value before each numbered operation. An undo log records, newest
first, what each operation changed. `Keeps` relates the two, and its rules say
that recording, discarding the oldest operations and undoing the youngest ones
agree in both.
-/
namespace UndoLog

variable {Value Entry : Type*}

/-- The value after every entry of the log is undone, the newest one first. -/
def unwind (undo : Entry → Value → Value) (log : List Entry) (value : Value) : Value :=
  log.foldl (fun current entry => undo entry current) value

/-- The value saved before the oldest operation above `n`, or the present value
where no operation is above `n`. The checkpoints are listed newest first. -/
def restored (n : Nat) (saved : List (Nat × Value)) (value : Value) : Value :=
  match (saved.filter fun point => n < point.1).getLast? with
  | none => value
  | some point => point.2

/-- The log can return to every checkpoint: undoing all that was recorded from
an operation on gives the value saved before it. -/
structure Keeps (number : Entry → Nat) (undo : Entry → Value → Value) (log : List Entry)
    (value : Value) (saved : List (Nat × Value)) : Prop where
  newestFirst : log.Pairwise fun entry older => number older ≤ number entry
  descending : saved.Pairwise fun point older => older.1 < point.1
  covered : ∀ entry ∈ log, ∃ point ∈ saved, point.1 = number entry
  returns : ∀ point ∈ saved,
    unwind undo (log.filter fun entry => point.1 ≤ number entry) value = point.2

variable {number : Entry → Nat} {undo : Entry → Value → Value} {log : List Entry} {value : Value}
  {saved : List (Nat × Value)}

@[simp] theorem unwind_nil (value : Value) : unwind undo [] value = value := rfl

@[simp] theorem unwind_cons (entry : Entry) (log : List Entry) (value : Value) :
    unwind undo (entry :: log) value = unwind undo log (undo entry value) := rfl

theorem unwind_append (log older : List Entry) (value : Value) :
    unwind undo (log ++ older) value = unwind undo older (unwind undo log value) :=
  List.foldl_append

theorem unwind_change (change : Value → Value) (log : List Entry)
    (commutes : ∀ entry ∈ log, ∀ current, undo entry (change current) = change (undo entry current))
    (value : Value) : unwind undo log (change value) = change (unwind undo log value) := by
  induction log generalizing value with
  | nil => rfl
  | cons entry _ ih =>
    rw [unwind_cons, unwind_cons, commutes entry List.mem_cons_self]
    exact ih (fun later mem => commutes later (List.mem_cons_of_mem _ mem)) (undo entry value)

theorem keeps_nil (value : Value) : Keeps number undo [] value [] :=
  ⟨.nil, .nil, by simp, by simp⟩

/-- In a log that lists the newest entries first, the entries above a number
come before the others. -/
theorem filter_split (newestFirst : log.Pairwise fun entry older => number older ≤ number entry)
    {low high : Nat} (below : low ≤ high + 1) : log.filter (fun entry => low ≤ number entry) =
      log.filter (fun entry => high < number entry) ++
        (log.filter fun entry => number entry ≤ high).filter fun entry => low ≤ number entry := by
  induction log with
  | nil => rfl
  | cons entry older ih =>
    have rest := ih (List.Pairwise.of_cons newestFirst)
    by_cases young : high < number entry
    · have kept : low ≤ number entry := by omega
      simp [young, kept, rest]
    · -- Nothing behind this entry is above it, so the first part is empty.
      have none_above : older.filter (fun later => high < number later) = [] := by
        simp only [List.filter_eq_nil_iff, decide_eq_true_eq]
        intro _ mem
        have bound := List.rel_of_pairwise_cons newestFirst mem
        omega
      rw [none_above, List.nil_append] at rest
      have old : number entry ≤ high := by omega
      simp only [List.filter_cons, young, none_above, old, rest, decide_false, decide_true,
        Bool.false_eq_true, if_false, if_true, List.nil_append]

/-- The last of the checkpoints is the oldest one. -/
theorem last_oldest (descending : saved.Pairwise fun point older => older.1 < point.1)
    (last : Nat × Value) (at_end : saved.getLast? = some last) (point : Nat × Value)
    (mem : point ∈ saved) : last.1 ≤ point.1 := by
  obtain ⟨_, rfl⟩ := List.getLast?_eq_some_iff.mp at_end
  rcases List.mem_append.mp mem with before | here
  · exact Nat.le_of_lt
      ((List.pairwise_append.mp descending).2.2 point before last (List.mem_singleton_self last))
  · cases List.mem_singleton.mp here
    exact Nat.le_refl _

namespace Keeps

section

variable (keeps : Keeps number undo log value saved)
include keeps

/-- An operation whose entries lead back to the value before it. -/
theorem record (n : Nat) (entries : List Entry) (after : Value)
    (fresh : ∀ point ∈ saved, point.1 < n) (own : ∀ entry ∈ entries, number entry = n)
    (back : unwind undo entries after = value) :
    Keeps number undo (entries ++ log) after ((n, value) :: saved) where
  newestFirst := by
    rw [List.pairwise_append]
    refine ⟨?_, keeps.newestFirst, fun entry mem older present => ?_⟩
    · refine List.pairwise_of_forall_mem_list fun entry mem older present => ?_
      exact Nat.le_of_eq ((own older present).trans (own entry mem).symm)
    · obtain ⟨point, saved, _⟩ := keeps.covered older present
      have bound := fresh point saved
      rw [own entry mem]
      omega
  descending := List.pairwise_cons.mpr ⟨fresh, keeps.descending⟩
  covered := by
    intro entry mem
    rcases List.mem_append.mp mem with new | old
    · exact ⟨(n, value), List.mem_cons_self, (own entry new).symm⟩
    · obtain ⟨point, saved, same⟩ := keeps.covered entry old
      exact ⟨point, List.mem_cons_of_mem _ saved, same⟩
  returns := by
    intro point mem
    rw [List.filter_append, unwind_append]
    have all (low : Nat) (below : low ≤ n) :
        entries.filter (fun entry => low ≤ number entry) = entries := by
      rw [List.filter_eq_self]
      intro entry present
      simpa [own entry present] using below
    rcases List.mem_cons.mp mem with rfl | old
    · -- No older entry carries the number of the new operation.
      have none_newer : log.filter (fun entry => n ≤ number entry) = [] := by
        simp only [List.filter_eq_nil_iff, decide_eq_true_eq]
        intro entry present
        obtain ⟨point, saved, _⟩ := keeps.covered entry present
        have bound := fresh point saved
        omega
      rw [all n (Nat.le_refl n), none_newer, back, unwind_nil]
    · rw [all point.1 (Nat.le_of_lt (fresh point old)), back]
      exact keeps.returns point old

theorem commit (n : Nat) :
    Keeps number undo (log.filter fun entry => n < number entry) value
      (saved.filter fun point => n < point.1) where
  newestFirst := keeps.newestFirst.filter _
  descending := keeps.descending.filter _
  covered := by
    intro entry mem
    obtain ⟨present, young⟩ := List.mem_filter.mp mem
    obtain ⟨point, saved, same⟩ := keeps.covered entry present
    exact ⟨point, List.mem_filter.mpr ⟨saved, by simpa [same] using young⟩, same⟩
  returns := by
    intro point mem
    obtain ⟨present, young⟩ := List.mem_filter.mp mem
    rw [List.filter_filter]
    -- what is undone back to a point that is left was not committed
    have same : log.filter
      (fun entry => decide (point.1 ≤ number entry) && decide (n < number entry)) =
        log.filter fun entry => point.1 ≤ number entry := by
      refine List.filter_congr fun entry _ => ?_
      have above : n < point.1 := by simpa using young
      by_cases later : point.1 ≤ number entry
      · have young : n < number entry := by omega
        simp [later, young]
      · simp [later]
    rw [same]
    exact keeps.returns point present

/-- Undoing the operations above a number. -/
theorem squash (n : Nat) :
    Keeps number undo (log.filter fun entry => number entry ≤ n)
      (unwind undo (log.filter fun entry => n < number entry) value)
      (saved.filter fun point => point.1 ≤ n) where
  newestFirst := keeps.newestFirst.filter _
  descending := keeps.descending.filter _
  covered := by
    intro entry mem
    obtain ⟨present, old⟩ := List.mem_filter.mp mem
    obtain ⟨point, saved, same⟩ := keeps.covered entry present
    exact ⟨point, List.mem_filter.mpr ⟨saved, by simpa [same] using old⟩, same⟩
  returns := by
    intro point mem
    obtain ⟨present, old⟩ := List.mem_filter.mp mem
    have below : point.1 ≤ n := by simpa using old
    rw [← unwind_append, ← filter_split keeps.newestFirst (by omega)]
    exact keeps.returns point present

/-- A change of the value that no recorded entry is affected by. -/
theorem changed (change : Value → Value)
    (commutes : ∀ entry ∈ log, ∀ current, undo entry (change current) =
      change (undo entry current)) :
    Keeps number undo log (change value) (saved.map fun point => (point.1, change point.2)) where
  newestFirst := keeps.newestFirst
  descending := by
    rw [List.pairwise_map]
    exact keeps.descending
  covered := by
    intro entry mem
    obtain ⟨point, present, same⟩ := keeps.covered entry mem
    exact ⟨(point.1, change point.2), List.mem_map.mpr ⟨point, present, rfl⟩, same⟩
  returns := by
    intro _ mem
    obtain ⟨old, present, rfl⟩ := List.mem_map.mp mem
    rw [unwind_change change _ fun entry listed => commutes entry (List.mem_filter.mp listed).1]
    exact congrArg change (keeps.returns old present)

/-- Undoing the operations above a number restores the value before the oldest
of them. -/
theorem restores (n : Nat) :
    unwind undo (log.filter fun entry => n < number entry) value = restored n saved value := by
  unfold restored
  split
  next none_above =>
    -- Nothing is saved above the number, so nothing is recorded above it either.
    have empty : log.filter (fun entry => n < number entry) = [] := by
      simp only [List.filter_eq_nil_iff, decide_eq_true_eq]
      intro entry present young
      obtain ⟨point, saved_point, same⟩ := keeps.covered entry present
      have mem : point ∈ saved.filter fun point => n < point.1 :=
        List.mem_filter.mpr ⟨saved_point, by simpa [same] using young⟩
      rw [List.getLast?_eq_none_iff.mp none_above] at mem
      cases mem
    rw [empty, unwind_nil]
  next point last =>
    have mem := List.mem_of_getLast? last
    obtain ⟨present, above⟩ := List.mem_filter.mp mem
    have above : n < point.1 := by simpa using above
    -- The entries above the number are those from the oldest such operation on.
    have same : log.filter (fun entry => n < number entry) =
        log.filter fun entry => point.1 ≤ number entry := by
      refine List.filter_congr fun entry listed => ?_
      rw [decide_eq_decide]
      constructor
      · intro young
        obtain ⟨other, saved_other, number_other⟩ := keeps.covered entry listed
        have other_above : other ∈ saved.filter fun point => n < point.1 :=
          List.mem_filter.mpr ⟨saved_other, by simpa [number_other] using young⟩
        have oldest := last_oldest (keeps.descending.filter _) point last other other_above
        omega
      · omega
    rw [same]
    exact keeps.returns point present

end

end Keeps

end UndoLog
