import RasCache.Foundation.Runs
import Mathlib.Data.List.Perm.Basic

/-!
# The queue of a queued prefetcher

Model of `Queued::addToQueue` and of the removal from the front in
`Queued::getPacket` (`mem/cache/prefetch/queued.cc`). An iterator of the list is
a position. The queue looks at the priority of a deferred packet only, so what
else the packet carries is a parameter; the runs below let it carry the number
of the call that added it.

The walk that looks for the place of a new packet stops at the first entry from
the back that is not of lower priority, and the packet is put before that entry.
Only at the head of the queue is the place corrected. `queue_ordered_iff` says
which calls keep the queue ordered.
-/
namespace RasCache.Mem

structure DeferredPacket (Info : Type) where
  info : Info
  priority : Int
deriving Repr, DecidableEq

namespace Queued

variable {Info : Type}

/-- `it->priority`. -/
def priorityAt (queue : List (DeferredPacket Info)) (it : Nat) : Option Int :=
  queue[it]?.map DeferredPacket.priority

/-- `dpp > *it`. -/
def exceeds (dpp : DeferredPacket Info) (queue : List (DeferredPacket Info)) (it : Nat) : Bool :=
  queue[it]?.any fun entry => entry.priority < dpp.priority

/-- The walk for the oldest packet in the level of priority of `it`. -/
def oldestInLevel (queue : List (DeferredPacket Info)) : Nat → Nat → Nat
  | it, 0 => it
  | it, prev + 1 =>
    if priorityAt queue prev = priorityAt queue it then oldestInLevel queue prev prev else it

/-- The room a full queue makes for a new packet; `none` when it panics. -/
def makeRoom (queueSize : Nat) (queue : List (DeferredPacket Info)) :
    Option (List (DeferredPacket Info)) :=
  if queue.length = queueSize then
    -- "both full and empty", "full with 1 element"
    if queue.length ≤ 1 then none
    else some (queue.eraseIdx (oldestInLevel queue (queue.length - 1) (queue.length - 1)))
  else some queue

/-- The `do … while` walk from the end of the queue. -/
def insertPoint (queue : List (DeferredPacket Info)) (dpp : DeferredPacket Info) : Nat → Nat
  | 0 => 0
  | it + 1 => if it ≠ 0 ∧ exceeds dpp queue it then insertPoint queue dpp it else it

def place (queue : List (DeferredPacket Info)) (dpp : DeferredPacket Info) :
    List (DeferredPacket Info) :=
  if queue.length = 0 then queue ++ [dpp]
  else
    let it := insertPoint queue dpp queue.length
    -- at the head, the new element is the new head or not
    let it := if it = 0 ∧ ¬ exceeds dpp queue it then it + 1 else it
    queue.take it ++ dpp :: queue.drop it

def addToQueue (queueSize : Nat) (queue : List (DeferredPacket Info))
    (dpp : DeferredPacket Info) : Option (List (DeferredPacket Info)) :=
  (makeRoom queueSize queue).map fun room => place room dpp

/-! ## Priority and arrival -/

/-- The queue, with the number of calls of `addToQueue` so far. Each packet
carries the number of its call. -/
structure Numbered (Info : Type) where
  pfq : List (DeferredPacket (Nat × Info)) := []
  arrivals : Nat := 0
deriving Repr, DecidableEq

inductive Event (Info : Type) where
  | addToQueue (info : Info) (priority : Int)
  | popFront
deriving Repr, DecidableEq

def newPacket (s : Numbered Info) (info : Info) (priority : Int) : DeferredPacket (Nat × Info) where
  info := (s.arrivals, info)
  priority := priority

def step (queueSize : Nat) (s : Numbered Info) : Event Info → Option (Numbered Info)
  | .addToQueue info priority =>
    (addToQueue queueSize s.pfq (newPacket s info priority)).map fun pfq =>
      { pfq := pfq, arrivals := s.arrivals + 1 }
  | .popFront => some { s with pfq := s.pfq.tail }

/-- `a` is to be issued before `b`. -/
def Before (a b : DeferredPacket (Nat × Info)) : Prop :=
  b.priority < a.priority ∨ a.priority = b.priority ∧ a.info.1 < b.info.1

def Ordered (s : Numbered Info) : Prop :=
  s.pfq.Pairwise Before

/-- `victim` is the oldest entry of the lowest priority present. -/
def OldestLowest (queue : List (DeferredPacket (Nat × Info)))
    (victim : DeferredPacket (Nat × Info)) : Prop :=
  ∀ other ∈ queue, victim.priority < other.priority ∨
    victim.priority = other.priority ∧ victim.info.1 ≤ other.info.1

/-- What a call that adds `new` may drop. -/
def DropsOnly (queueSize : Nat) (queue : List (DeferredPacket (Nat × Info)))
    (new : DeferredPacket (Nat × Info)) (after : List (DeferredPacket (Nat × Info))) : Prop :=
  queue.length < queueSize ∧ after.Perm (new :: queue) ∨
    queue.length = queueSize ∧ ∃ victim ∈ queue, OldestLowest queue victim ∧
      (victim :: after).Perm (new :: queue)

/-- The event succeeds, leaves an ordered queue within its size, and drops at
most what a full queue has to drop. -/
def Right (queueSize : Nat) (s : Numbered Info) (e : Event Info) : Prop :=
  ∃ t, step queueSize s e = some t ∧ Ordered t ∧ t.pfq.length ≤ queueSize ∧
    ∀ info priority, e = .addToQueue info priority →
      DropsOnly queueSize s.pfq (newPacket s info priority) t.pfq

/-- The new packet has a higher priority than every packet it finds behind the
head of the queue. -/
def Fits (queueSize : Nat) (s : Numbered Info) : Event Info → Prop
  | .addToQueue _ priority =>
    ∀ room, makeRoom queueSize s.pfq = some room → ∀ entry ∈ room.tail, entry.priority < priority
  | .popFront => True

/-! ## The two walks -/

section Walks

variable (queue : List (DeferredPacket Info)) (dpp : DeferredPacket Info)

theorem insertPoint_lt (n : Nat) (positive : 0 < n) : insertPoint queue dpp n < n := by
  induction n with
  | zero => omega
  | succ _ ih =>
    simp only [insertPoint]
    split
    next =>
      have := ih (by omega)
      omega
    · omega

/-- Past its end the walk has met lower priorities only. -/
theorem insertPoint_passed (n j : Nat) (passed : insertPoint queue dpp n < j)
    (below : j < n) : exceeds dpp queue j = true := by
  induction n with
  | zero => omega
  | succ _ ih =>
    simp only [insertPoint] at passed
    split at passed
    next walks =>
      rcases Nat.lt_succ_iff_lt_or_eq.mp below with below | rfl
      · exact ih passed below
      · exact walks.2
    · omega

/-- The walk ends at the head or at an entry that is not of lower priority. -/
theorem insertPoint_stops (n : Nat) :
    insertPoint queue dpp n = 0 ∨ exceeds dpp queue (insertPoint queue dpp n) = false := by
  induction n with
  | zero => exact Or.inl rfl
  | succ it ih =>
    simp only [insertPoint]
    split
    · exact ih
    next stays =>
      by_cases head : it = 0
      · exact Or.inl head
      · exact Or.inr (eq_false_of_ne_true fun higher => stays ⟨head, higher⟩)

theorem oldestInLevel_le (n : Nat) : oldestInLevel queue n n ≤ n := by
  induction n with
  | zero => exact Nat.le_refl _
  | succ =>
    simp only [oldestInLevel]
    split
    · omega
    · exact Nat.le_refl _

theorem oldestInLevel_priority (n : Nat) :
    priorityAt queue (oldestInLevel queue n n) = priorityAt queue n := by
  induction n with
  | zero => rfl
  | succ _ ih =>
    simp only [oldestInLevel]
    split
    next same => exact ih.trans same
    · rfl

/-- The entry in front of the walk's end is of another level. -/
theorem oldestInLevel_stops (n j : Nat) (end_ : oldestInLevel queue n n = j + 1) :
    priorityAt queue j ≠ priorityAt queue (j + 1) := by
  induction n with
  | zero => simp [oldestInLevel] at end_
  | succ _ ih =>
    simp only [oldestInLevel] at end_
    split at end_
    · exact ih end_
    next other =>
      cases end_
      exact other

end Walks

theorem exceeds_iff (dpp : DeferredPacket Info) {queue : List (DeferredPacket Info)} {it : Nat}
    (inside : it < queue.length) :
    exceeds dpp queue it = true ↔ queue[it].priority < dpp.priority := by
  simp [exceeds, List.getElem?_eq_getElem inside]

/-! ## Where a packet is placed -/

theorem place_perm (queue : List (DeferredPacket Info)) (dpp : DeferredPacket Info) :
    (place queue dpp).Perm (dpp :: queue) := by
  simp only [place]
  split
  next empty => simp [List.length_eq_zero_iff.mp empty]
  next =>
    refine List.perm_middle.trans (List.Perm.cons dpp ?_)
    rw [List.take_append_drop]

/-- An ordered queue with one packet added is ordered when the packets in front
are not of lower priority and the packets behind are. The new packet is the
youngest, so it stands behind the others of its level. -/
theorem inserted_ordered_iff (front back : List (DeferredPacket (Nat × Info)))
    (new : DeferredPacket (Nat × Info)) (ordered : (front ++ back).Pairwise Before)
    (older : ∀ entry ∈ front ++ back, entry.info.1 < new.info.1) :
    (front ++ new :: back).Pairwise Before ↔ (∀ entry ∈ front, new.priority ≤ entry.priority) ∧
        ∀ entry ∈ back, entry.priority < new.priority := by
  obtain ⟨inFront, inBack, across⟩ := List.pairwise_append.mp ordered
  simp only [List.mem_append] at older
  rw [List.pairwise_append, List.pairwise_cons]
  constructor
  · -- the new packet is the youngest, so a tie in priority is decided against it
    rintro ⟨-, ⟨behind, -⟩, ahead⟩
    constructor
    · intro entry mem
      have := ahead entry mem new (by simp)
      simp only [Before] at this
      omega
    · intro entry mem
      have := behind entry mem
      have := older entry (Or.inr mem)
      simp only [Before] at *
      omega
  · rintro ⟨ahead, behind⟩
    refine ⟨inFront, ⟨fun entry mem => Or.inl (behind entry mem), inBack⟩, ?_⟩
    intro entry mem other among
    rcases List.mem_cons.mp among with rfl | among
    · have := ahead entry mem
      have := older entry (Or.inl mem)
      simp only [Before]
      omega
    · exact across entry mem other among

variable {queue : List (DeferredPacket (Nat × Info))} {queueSize : Nat} {s : Numbered Info}

/-- A packet is placed in order exactly when it has a higher priority than every
entry behind the head. -/
theorem place_ordered_iff (new : DeferredPacket (Nat × Info)) (ordered : queue.Pairwise Before)
    (older : ∀ entry ∈ queue, entry.info.1 < new.info.1) :
    (place queue new).Pairwise Before ↔ ∀ entry ∈ queue.tail, entry.priority < new.priority := by
  simp only [place]
  split
  next empty => simp [List.length_eq_zero_iff.mp empty]
  next nonempty =>
    have inside := insertPoint_lt queue new queue.length (by omega)
    have passed := insertPoint_passed queue new queue.length
    have stops := insertPoint_stops queue new queue.length
    generalize insertPoint queue new queue.length = it at inside passed stops
    have placed_iff := fun position =>
      inserted_ordered_iff (queue.take position) (queue.drop position) new
        (by rw [List.take_append_drop]; exact ordered)
        (by rw [List.take_append_drop]; exact older)
    rw [placed_iff]
    by_cases head : it = 0
    · subst head
      have behind : ∀ entry ∈ queue.tail, entry.priority < new.priority := by
        intro _ mem
        obtain ⟨j, below, rfl⟩ := List.mem_iff_getElem.mp mem
        simp only [List.length_tail] at below
        rw [List.getElem_tail]
        exact (exceeds_iff new (by omega)).mp (passed (j + 1) (by omega) (by omega))
      refine iff_of_true ?_ behind
      have first := exceeds_iff new inside
      cases queue with
      | nil => exact absurd rfl nonempty
      | cons entry rest =>
        by_cases higher : entry.priority < new.priority
        · have walked : exceeds new (entry :: rest) 0 = true := first.mpr higher
          simpa [walked] using ⟨higher, behind⟩
        · have walked : exceeds new (entry :: rest) 0 = false :=
            eq_false_of_ne_true fun above => higher (first.mp above)
          simpa [walked] using ⟨by omega, behind⟩
    · -- the packet stands before an entry that should come first
      have notLower : ¬ queue[it].priority < new.priority := fun lower => by
        have := (exceeds_iff new inside).mpr lower
        simp [stops.resolve_left head] at this
      simp only [head, false_and, if_false]
      refine iff_of_false (fun placed => notLower ?_) (fun behind => notLower ?_)
      · exact placed.2 _ (List.mem_drop_iff_getElem.mpr ⟨0, by omega, rfl⟩)
      · refine behind _ (List.mem_iff_getElem.mpr ⟨it - 1, by simp; omega, ?_⟩)
        rw [List.getElem_tail]
        congr 1
        omega

/-! ## What a full queue drops -/

theorem victim_oldestLowest (ordered : queue.Pairwise Before) {n : Nat}
    (last : queue.length = n + 1) (inside : oldestInLevel queue n n < queue.length) :
    OldestLowest queue queue[oldestInLevel queue n n] := by
  have level := oldestInLevel_priority queue n
  have stops := oldestInLevel_stops queue n
  generalize oldestInLevel queue n n = victim at inside level stops
  have inOrder := List.pairwise_iff_getElem.mp ordered
  simp only [priorityAt, List.getElem?_eq_getElem inside,
    List.getElem?_eq_getElem (show n < queue.length by omega), Option.map_some,
    Option.some.injEq] at level
  intro _ mem
  obtain ⟨j, below, rfl⟩ := List.mem_iff_getElem.mp mem
  rcases Nat.lt_trichotomy j victim with front | rfl | behind
  · -- the entry just in front of the victim is of a higher level
    obtain ⟨k, rfl⟩ : ∃ k, victim = k + 1 := ⟨victim - 1, by omega⟩
    have differs := stops k rfl
    have within : k < queue.length := by omega
    simp only [priorityAt, List.getElem?_eq_getElem inside, List.getElem?_eq_getElem within,
      Option.map_some, ne_eq, Option.some.injEq] at differs
    have above := inOrder k (k + 1) within inside (by omega)
    have higher : queue[j].priority ≥ queue[k].priority := by
      rcases Nat.lt_succ_iff_lt_or_eq.mp front with front | rfl
      · have := inOrder j k below within front
        simp only [Before] at this
        omega
      · exact Int.le_refl _
    simp only [Before] at above
    omega
  · exact Or.inr ⟨rfl, Nat.le_refl _⟩
  · have := inOrder victim j inside below behind
    have lowest : queue[n].priority ≤ queue[j].priority := by
      by_cases final : j = n
      · subst final
        exact Int.le_refl _
      · have := inOrder j n below (by omega) (by omega)
        simp only [Before] at this
        omega
    simp only [Before] at this
    omega

theorem makeRoom_cases (atLeastTwo : 2 ≤ queueSize) (bounded : queue.length ≤ queueSize) :
    ∃ room, makeRoom queueSize queue = some room ∧ room.Sublist queue ∧ room.length < queueSize ∧
      (queue.length < queueSize ∧ room = queue ∨
        queue.length = queueSize ∧ ∃ victim ∈ queue, (victim :: room).Perm queue ∧
          (queue.Pairwise Before → OldestLowest queue victim)) := by
  by_cases full : queue.length = queueSize
  · have inside : oldestInLevel queue (queue.length - 1) (queue.length - 1) < queue.length := by
      have := oldestInLevel_le queue (queue.length - 1)
      omega
    refine ⟨_, by simp only [makeRoom, full]; rw [if_pos trivial, if_neg (by omega)],
      List.eraseIdx_sublist _ _, ?_, Or.inr ⟨full, queue[_], List.getElem_mem inside, ?_, ?_⟩⟩
    · rw [← full, List.length_eraseIdx_of_lt inside]
      omega
    · rw [← full]
      exact List.getElem_cons_eraseIdx_perm inside
    · intro ordered
      exact victim_oldestLowest ordered (by omega) inside
  · exact ⟨queue, if_neg full, List.Sublist.refl _, by omega, Or.inl ⟨by omega, rfl⟩⟩

/-! ## Runs -/

/-- What every event keeps: the queue stays within its size, and its packets
come from calls already made. -/
structure Formed (queueSize : Nat) (s : Numbered Info) : Prop where
  bounded : s.pfq.length ≤ queueSize
  arrived : ∀ entry ∈ s.pfq, entry.info.1 < s.arrivals

/-- A call on a formed queue: the room it finds and the queue it leaves. -/
theorem add_cases (atLeastTwo : 2 ≤ queueSize) (formed : Formed queueSize s) (info : Info)
    (priority : Int) : ∃ room, makeRoom queueSize s.pfq = some room ∧
      step queueSize s (.addToQueue info priority) =
        some { pfq := place room (newPacket s info priority), arrivals := s.arrivals + 1 } ∧
      room.Sublist s.pfq ∧ (place room (newPacket s info priority)).length ≤ queueSize ∧
      (Ordered s → DropsOnly queueSize s.pfq (newPacket s info priority)
        (place room (newPacket s info priority))) := by
  obtain ⟨room, made, sub, spare, drops⟩ := makeRoom_cases atLeastTwo formed.bounded
  have placed := place_perm room (newPacket s info priority)
  refine ⟨room, made, by simp [step, addToQueue, made], sub, ?_, fun ordered => ?_⟩
  · rw [placed.length_eq]
    exact spare
  · rcases drops with ⟨spare, rfl⟩ | ⟨full, victim, mem, rest, lowest⟩
    · exact Or.inl ⟨spare, placed⟩
    · refine Or.inr ⟨full, victim, mem, lowest ordered, ?_⟩
      calc List.Perm (victim :: place room (newPacket s info priority))
            (victim :: newPacket s info priority :: room) := placed.cons victim
        List.Perm _ (newPacket s info priority :: victim :: room) := List.Perm.swap _ _ _
        List.Perm _ (newPacket s info priority :: s.pfq) := rest.cons _

theorem step_formed (queueSize : Nat) (atLeastTwo : 2 ≤ queueSize) (s : Numbered Info)
    (e : Event Info) (formed : Formed queueSize s) :
    ∃ t, step queueSize s e = some t ∧ Formed queueSize t := by
  cases e with
  | addToQueue info priority =>
    obtain ⟨_, -, taken, sub, bounded, -⟩ := add_cases atLeastTwo formed info priority
    refine ⟨_, taken, bounded, fun entry mem => ?_⟩
    rcases List.mem_cons.mp ((place_perm _ _).mem_iff.mp mem) with rfl | mem
    · exact Nat.lt_succ_self _
    · exact Nat.lt_succ_of_lt (formed.arrived entry (sub.subset mem))
  | popFront =>
    refine ⟨_, rfl, ?_, fun entry mem => formed.arrived entry (List.mem_of_mem_tail mem)⟩
    exact Nat.le_trans (List.tail_sublist _).length_le formed.bounded

theorem step_right_iff (atLeastTwo : 2 ≤ queueSize) (e : Event Info) (formed : Formed queueSize s)
    (ordered : Ordered s) : Right queueSize s e ↔ Fits queueSize s e := by
  obtain ⟨t, taken, after⟩ := step_formed queueSize atLeastTwo s e formed
  cases e with
  | addToQueue info priority =>
    -- what leaves to make room leaves an ordered queue, so it is all about the new place
    obtain ⟨room, made, added, sub, -, drops⟩ := add_cases atLeastTwo formed info priority
    obtain rfl := Option.some.inj (taken.symm.trans added)
    have placed := place_ordered_iff (newPacket s info priority) (ordered.sublist sub)
      (fun entry mem => formed.arrived entry (sub.subset mem))
    constructor
    · rintro ⟨u, stepped, inOrder, -, -⟩ room' made'
      obtain rfl := Option.some.inj (stepped.symm.trans added)
      obtain rfl := Option.some.inj (made'.symm.trans made)
      exact placed.mp inOrder
    · intro fits
      refine ⟨_, taken, placed.mpr (fits room made), after.bounded, fun info' priority' same => ?_⟩
      cases same
      exact drops ordered
  | popFront =>
    refine iff_of_true ⟨t, taken, ?_, after.bounded, fun _ _ other => by cases other⟩ trivial
    cases taken
    exact ordered.sublist (List.tail_sublist _)

/-- Every run of calls and removals from an empty queue goes through and keeps
the queue within its size. It is ordered and drops the right entries all along
exactly when each new packet exceeds what it finds behind the head. -/
theorem queue_ordered_iff (queueSize : Nat) (atLeastTwo : 2 ≤ queueSize)
    (events : List (Event Info)) :
    (∃ s : Numbered Info, Runs.run (step queueSize) {} events = some s ∧ s.pfq.length ≤ queueSize) ∧
    (Runs.Along (step queueSize) (Right queueSize) {} events ↔
      Runs.Along (step queueSize) (Fits queueSize) {} events) := by
  have start : Formed queueSize ({} : Numbered Info) := ⟨Nat.zero_le _, by simp⟩
  have ordered : Ordered ({} : Numbered Info) := List.Pairwise.nil
  constructor
  · obtain ⟨s, ran, formed⟩ := Runs.run_total (step_formed queueSize atLeastTwo) {} events start
    exact ⟨s, ran, formed.bounded⟩
  · -- the order is a part of what is right, so it is there for the next step
    have keeps : ∀ (s : Numbered Info) (e : Event Info) (t : Numbered Info),
        Formed queueSize s ∧ Ordered s → Right queueSize s e →
          step queueSize s e = some t → Formed queueSize t ∧ Ordered t := by
      rintro s e t ⟨formed, -⟩ ⟨u, stepped, inOrder, -, -⟩ taken
      obtain ⟨_, reached, after⟩ := step_formed queueSize atLeastTwo s e formed
      obtain rfl := Option.some.inj (stepped.symm.trans taken)
      obtain rfl := Option.some.inj (reached.symm.trans taken)
      exact ⟨after, inOrder⟩
    have exactly : ∀ (s : Numbered Info) (e : Event Info), Formed queueSize s ∧ Ordered s →
        (Right queueSize s e ↔ Fits queueSize s e) :=
      fun s e inv => step_right_iff atLeastTwo e inv.1 inv.2
    constructor
    · exact Runs.along_of_invariant keeps (fun s e inv => (exactly s e inv).mp) {} events
        ⟨start, ordered⟩
    · exact Runs.along_of_invariant
        (fun s e t inv fits => keeps s e t inv ((exactly s e inv).mpr fits))
        (fun s e inv => (exactly s e inv).mpr) {} events ⟨start, ordered⟩

/-- Each call finds packets of lower priority behind the head; the fourth one finds the queue
full. -/
def rising : List (Event Unit) :=
  [.addToQueue () 1, .addToQueue () 0, .addToQueue () 3, .addToQueue () 5, .popFront]

theorem queue_ordered_iff_three :
    (∃ s : Numbered Unit, Runs.run (step 3) {} rising = some s ∧ s.pfq.length ≤ 3) ∧
    Runs.Along (step 3) (Right 3) ({} : Numbered Unit) rising := by
  obtain ⟨bounded, ordered⟩ := queue_ordered_iff 3 (by decide) rising
  refine ⟨bounded, ordered.mpr ?_⟩
  refine Runs.along_cons rfl (by rintro _ ⟨⟩; decide) (Runs.along_cons rfl (by rintro _ ⟨⟩; decide)
    (Runs.along_cons rfl (by rintro _ ⟨⟩; decide) (Runs.along_cons rfl (by rintro _ ⟨⟩; decide)
      (Runs.along_cons rfl trivial trivial))))

/-- Three packets of one priority: the third is put in front of the second. -/
theorem third_overtakes_second : ∃ s : Numbered Unit,
      Runs.run (step 3) {} [.addToQueue () 0, .addToQueue () 0, .addToQueue () 0] = some s ∧
      s.pfq.map (fun entry => entry.info.1) = [0, 2, 1] ∧ ¬ Ordered s := by
  refine ⟨{ pfq := [⟨(0, ()), 0⟩, ⟨(2, ()), 0⟩, ⟨(1, ()), 0⟩], arrivals := 3 }, by decide, rfl, ?_⟩
  simp [Ordered, Before]

end Queued

end RasCache.Mem
