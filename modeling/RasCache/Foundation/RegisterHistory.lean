import Mathlib.Data.List.Basic

/-!
# Histories of a register and their linearizations

A register is read and written by operations that start at one tick and complete
at another; a write may also be aborted. A history lists the calls that start,
complete and abort operations. It is linearizable if the operations can be given
points in one order that never contradicts real time, in which every read
returns what was written last.
-/
namespace RegisterHistory

abbrev Serial := Nat
abbrev Tick := Nat

variable {Data : Type*}

inductive Call (Data : Type*) where
  | startRead (serial : Serial) (tick : Tick)
  | completeRead (serial : Serial) (tick : Tick) (data : Data)
  | startWrite (serial : Serial) (tick : Tick) (data : Data)
  | completeWrite (serial : Serial) (tick : Tick)
  | abortWrite (serial : Serial) (tick : Tick)
deriving Repr, DecidableEq

namespace Call

def tick : Call Data → Tick
  | startRead _ tick | completeRead _ tick _ | startWrite _ tick _ | completeWrite _ tick
  | abortWrite _ tick => tick

/-- The operation that the call starts. -/
def started : Call Data → Option Serial
  | startRead serial _ | startWrite serial _ _ => some serial
  | _ => none

/-- The operation that the call completes. -/
def completed : Call Data → Option Serial
  | completeRead serial _ _ | completeWrite serial _ => some serial
  | _ => none

def aborted : Call Data → Option Serial
  | abortWrite serial _ => some serial
  | _ => none

/-- The operation and the value, if the call starts a write. -/
def written : Call Data → Option (Serial × Data)
  | startWrite serial _ data => some (serial, data)
  | _ => none

def readStarted : Call Data → Option Serial
  | startRead serial _ => some serial
  | _ => none

end Call

/-! ## Well-formed histories -/

/-- The serial is not used yet and larger than those before it. -/
def Fresh (past : List (Call Data)) (serial : Serial) : Prop :=
  ∀ call ∈ past, ∀ used ∈ call.started, used < serial

/-- The read was started and not completed yet. -/
def OpenRead (past : List (Call Data)) (serial : Serial) : Prop :=
  (∃ call ∈ past, call.readStarted = some serial) ∧ ∀ call ∈ past, call.completed ≠ some serial

/-- The write was started and neither completed nor aborted yet. -/
def OpenWrite (past : List (Call Data)) (serial : Serial) : Prop :=
  (∃ call ∈ past, call.written.map Prod.fst = some serial) ∧
    ∀ call ∈ past, call.completed ≠ some serial ∧ call.aborted ≠ some serial

/-- The call can follow the calls before it. Calls are made in tick order. -/
def Legal (past : List (Call Data)) (call : Call Data) : Prop :=
  (∀ before ∈ past, before.tick ≤ call.tick) ∧
  match call with
  | .startRead serial _ => Fresh past serial
  | .startWrite serial _ _ => Fresh past serial
  | .completeRead serial _ _ => OpenRead past serial
  | .completeWrite serial _ => OpenWrite past serial
  | .abortWrite serial _ => OpenWrite past serial

/-- A condition on each call and the calls before it. -/
def Throughout (ok : List (Call Data) → Call Data → Prop) :
    List (Call Data) → List (Call Data) → Prop
  | _, [] => True
  | past, call :: rest => ok past call ∧ Throughout ok (past ++ [call]) rest

instance (past : List (Call Data)) (serial : Serial) : Decidable (Fresh past serial) :=
  inferInstanceAs (Decidable (∀ call ∈ past, ∀ used ∈ call.started, used < serial))

instance (past : List (Call Data)) (serial : Serial) : Decidable (OpenRead past serial) :=
  inferInstanceAs (Decidable (_ ∧ _))

instance (past : List (Call Data)) (serial : Serial) : Decidable (OpenWrite past serial) :=
  inferInstanceAs (Decidable (_ ∧ _))

instance (past : List (Call Data)) : (call : Call Data) → Decidable (Legal past call)
  | .startRead serial _ => inferInstanceAs (Decidable (_ ∧ Fresh past serial))
  | .startWrite serial _ _ => inferInstanceAs (Decidable (_ ∧ Fresh past serial))
  | .completeRead serial _ _ => inferInstanceAs (Decidable (_ ∧ OpenRead past serial))
  | .completeWrite serial _ => inferInstanceAs (Decidable (_ ∧ OpenWrite past serial))
  | .abortWrite serial _ => inferInstanceAs (Decidable (_ ∧ OpenWrite past serial))

instance decidableThroughout (ok : List (Call Data) → Call Data → Prop)
    [∀ past call, Decidable (ok past call)] :
    (past calls : List (Call Data)) → Decidable (Throughout ok past calls)
  | _, [] => .isTrue trivial
  | past, call :: rest =>
    have := decidableThroughout ok (past ++ [call]) rest
    inferInstanceAs (Decidable (ok past call ∧ Throughout ok (past ++ [call]) rest))

/-- In a legal history no call comes before the tick of an earlier one. -/
theorem Throughout.tick_le {past rest : List (Call Data)} (legal : Throughout Legal past rest) :
    ∀ before ∈ past, ∀ call ∈ rest, before.tick ≤ call.tick := by
  induction rest generalizing past with
  | nil =>
    intro _ _ _ mem
    cases mem
  | cons _ _ ih =>
    exact fun before old => List.forall_mem_cons.mpr
      ⟨legal.1.1 before old, ih legal.2 before (List.mem_append_left _ old)⟩

/-! ## Linearizations -/

/-- An order of the operations that take effect: each has its point in it. -/
structure Linearization (Data : Type*) where
  inEffect : Serial → Bool
  point : Serial → Nat
  initial : Data

namespace Linearization

variable (order : Linearization Data) (calls : List (Call Data))

/-- The read returns the value of the last write before it, or the initial value
where there is none. -/
def Returns (read : Serial) (data : Data) : Prop :=
  (data = order.initial ∧ ∀ call ∈ calls, ∀ write ∈ call.written,
    order.inEffect write.1 = true → ¬ order.point write.1 < order.point read) ∨
  ∃ source ∈ calls, ∃ write ∈ source.written,
    order.inEffect write.1 = true ∧ write.2 = data ∧ order.point write.1 < order.point read ∧
    ∀ call ∈ calls, ∀ other ∈ call.written, order.inEffect other.1 = true →
      order.point other.1 < order.point read → order.point other.1 ≤ order.point write.1

/-- The value that a call reports is the right one. -/
def Right : Call Data → Prop
  | .completeRead serial _ data => order.Returns calls serial data
  | _ => True

/-- Two calls do not start different writes that take effect at one point. -/
def Distinct (first second : Call Data) : Prop :=
  ∀ write ∈ first.written, ∀ other ∈ second.written,
    order.inEffect write.1 = true → order.inEffect other.1 = true →
      order.point write.1 = order.point other.1 → write = other

/-- The order explains the history: completed operations take effect and aborted
writes do not, an operation that completes before another one starts comes
before it, no two writes share a point, and every read returns what it should. -/
structure Explains : Prop where
  completed : ∀ call ∈ calls, ∀ serial ∈ call.completed, order.inEffect serial = true
  aborted : ∀ call ∈ calls, ∀ serial ∈ call.aborted, order.inEffect serial = false
  realTime : ∀ first ∈ calls, ∀ second ∈ calls, ∀ done ∈ first.completed,
    ∀ begun ∈ second.started, order.inEffect begun = true → first.tick < second.tick →
      order.point done < order.point begun
  apart : ∀ first ∈ calls, ∀ second ∈ calls, order.Distinct first second
  right : ∀ call ∈ calls, order.Right calls call

instance [DecidableEq Data] (read : Serial) (data : Data) :
    Decidable (order.Returns calls read data) :=
  inferInstanceAs (Decidable (_ ∨ _))

instance [DecidableEq Data] : (call : Call Data) → Decidable (order.Right calls call)
  | .completeRead serial _ data => inferInstanceAs (Decidable (order.Returns calls serial data))
  | .startRead .. | .startWrite .. | .completeWrite .. | .abortWrite .. => .isTrue trivial

instance [DecidableEq Data] (first second : Call Data) : Decidable (order.Distinct first second) :=
  inferInstanceAs (Decidable (∀ write ∈ first.written, ∀ other ∈ second.written,
    order.inEffect write.1 = true → order.inEffect other.1 = true →
      order.point write.1 = order.point other.1 → write = other))

theorem explains_iff : order.Explains calls ↔
    (∀ call ∈ calls, ∀ serial ∈ call.completed, order.inEffect serial = true) ∧
    (∀ call ∈ calls, ∀ serial ∈ call.aborted, order.inEffect serial = false) ∧
    (∀ first ∈ calls, ∀ second ∈ calls, ∀ done ∈ first.completed, ∀ begun ∈ second.started,
      order.inEffect begun = true → first.tick < second.tick →
        order.point done < order.point begun) ∧
    (∀ first ∈ calls, ∀ second ∈ calls, order.Distinct first second) ∧
    ∀ call ∈ calls, order.Right calls call := by
  constructor
  · intro explains
    exact ⟨explains.completed, explains.aborted, explains.realTime, explains.apart, explains.right⟩
  · rintro ⟨completed, aborted, realTime, apart, right⟩
    exact ⟨completed, aborted, realTime, apart, right⟩

instance [DecidableEq Data] : Decidable (order.Explains calls) :=
  decidable_of_iff' _ (explains_iff order calls)

end Linearization

/-- Some order of the operations explains the history. -/
def Linearizable (calls : List (Call Data)) : Prop :=
  ∃ order : Linearization Data, order.Explains calls

/-! ## Where the value of a read comes from -/

/-- A write that starts after `written` and completes before `read`. -/
def Overwritten (calls : List (Call Data)) (written read : Tick) : Prop :=
  ∃ serial start data finish, Call.startWrite serial start data ∈ calls ∧
    Call.completeWrite serial finish ∈ calls ∧ written < start ∧ finish < read

/-- An earlier read, complete before `read`, that started after `after`. -/
def Observed (calls : List (Call Data)) (after read : Tick) (data : Data) : Prop :=
  ∃ serial start finish, Call.startRead serial start ∈ calls ∧
    Call.completeRead serial finish data ∈ calls ∧ after < start ∧ finish < read

/-- What a linearizable history says about a read that starts and completes at
these ticks and returns the value. It sees the initial value, while no write is
complete, or a write that is not overwritten in the meantime; and earlier reads
that can only have seen the same agree with it. -/
inductive Source (calls : List (Call Data)) (start finish : Tick) (data : Data) : Prop where
  | initial
    (none_complete : ∀ serial begun written ended, Call.startWrite serial begun written ∈ calls →
      Call.completeWrite serial ended ∈ calls → start ≤ ended)
    (agrees : ∀ serial begun ended seen, Call.startRead serial begun ∈ calls →
      Call.completeRead serial ended seen ∈ calls → ended < start → seen = data)
  | write (serial : Serial) (begun : Tick) (started : Call.startWrite serial begun data ∈ calls)
    (kept : ∀ tick, Call.abortWrite serial tick ∉ calls) (inTime : begun ≤ finish)
    (last : ∀ ended, Call.completeWrite serial ended ∈ calls → ¬ Overwritten calls ended start)
    (agrees : ∀ ended, Call.completeWrite serial ended ∈ calls →
      ∀ seen, Observed calls ended start seen → seen = data)

variable {calls : List (Call Data)} {order : Linearization Data}

theorem Overwritten.mono {more : List (Call Data)} {written read later : Tick}
    (hidden : Overwritten calls written read) (sub : ∀ call ∈ calls, call ∈ more)
    (le : read ≤ later) : Overwritten more written later := by
  obtain ⟨serial, start, data, finish, started, completed, after, early⟩ := hidden
  exact ⟨serial, start, data, finish, sub _ started, sub _ completed, after,
    Nat.lt_of_lt_of_le early le⟩

namespace Linearization.Explains

variable {finish ended start : Tick} {data : Data}

theorem write_before_read (explains : order.Explains calls) {write read : Serial}
    (done : Call.completeWrite write ended ∈ calls) (begun : Call.startRead read start ∈ calls)
    (ret : Call.completeRead read finish data ∈ calls) (before : ended < start) :
    order.point write < order.point read :=
  explains.realTime _ done _ begun write rfl read rfl
    (explains.completed _ ret read rfl) before

theorem read_before_read (explains : order.Explains calls) {first second : Serial} {seen : Data}
    (done : Call.completeRead first ended seen ∈ calls)
    (begun : Call.startRead second start ∈ calls)
    (ret : Call.completeRead second finish data ∈ calls) (before : ended < start) :
    order.point first < order.point second :=
  explains.realTime _ done _ begun first rfl second rfl
    (explains.completed _ ret second rfl) before

/-- Every read of a linearizable history has its source. -/
theorem source (explains : order.Explains calls) (read : Serial) (start finish : Tick) (data : Data)
    (begun : Call.startRead read start ∈ calls)
    (ret : Call.completeRead read finish data ∈ calls) : Source calls start finish data := by
  rcases explains.right _ ret with ⟨rfl, none_before⟩ | ⟨call, listed, write, isWrite, inEffect,
    rfl, before, latest⟩
  · refine .initial ?_ ?_
    · intro serial _ written _ started completed
      by_contra early
      refine none_before _ started (serial, written) rfl
        (explains.completed _ completed serial rfl) ?_
      exact explains.write_before_read completed begun ret (Nat.not_le.mp early)
    · intro _ _ _ _ _ completed early
      have ordered := explains.read_before_read completed begun ret early
      rcases explains.right _ completed with ⟨same, -⟩ |
        ⟨other, present, source, wrote, acts, -, point, -⟩
      · exact same
      · exact absurd (Nat.lt_trans point ordered) (none_before other present source wrote acts)
  · obtain ⟨serial, written⟩ := write
    obtain ⟨tick, rfl⟩ : ∃ tick, call = .startWrite serial tick written := by
      cases call <;> simp_all [Call.written]
    refine .write serial tick listed ?_ ?_ ?_ ?_
    · intro _ aborted
      have idle := explains.aborted _ aborted serial rfl
      rw [inEffect] at idle
      cases idle
    · -- The read cannot be complete before the write starts.
      by_contra late
      have ordered : order.point read < order.point serial :=
        explains.realTime _ ret _ listed read rfl serial rfl inEffect (Nat.not_le.mp late)
      exact Nat.lt_asymm before ordered
    · rintro ended completed
        ⟨other, otherStart, otherData, otherEnd, started, finished, after, early⟩
      have acts := explains.completed _ finished other rfl
      have behind : order.point serial < order.point other :=
        explains.realTime _ completed _ started serial rfl other rfl acts after
      have ahead := explains.write_before_read finished begun ret early
      exact Nat.not_le.mpr behind (latest _ started (other, otherData) rfl acts ahead)
    · rintro ended completed seen ⟨reader, readerStart, readerEnd, started, observed, after, early⟩
      have between := explains.read_before_read observed begun ret early
      have behind := explains.write_before_read completed started observed after
      rcases explains.right _ observed with ⟨-, none_before⟩ |
        ⟨other, present, source, wrote, acts, rfl, point, newest⟩
      · exact absurd behind (none_before _ listed (serial, written) rfl inEffect)
      · -- Both reads see the last write before them, and nothing is in between.
        have lower := newest _ listed (serial, written) rfl inEffect behind
        have upper := latest other present source wrote acts (Nat.lt_trans point between)
        have same := explains.apart _ listed other present (serial, written) rfl source
          wrote inEffect
          acts (Nat.le_antisymm lower upper)
        rw [← same]

end Linearization.Explains

end RegisterHistory
