import RasCache.Sim.EventQueue

/-!
# The event queue as a sorted list

What the queue is for: a list of the scheduled events by time and priority, in
which the event inserted last comes first among those of the same time and
priority. Every run of the queue follows the run of this list
(`eventQueue_refines`), and no run looks at a stale pointer.
-/
namespace RasCache.Sim

open Stacks

variable {n : Nat}

/-- A scheduled event; `stamp` counts the insertions. -/
structure Entry (n : Nat) where
  event : Fin n
  when : Nat
  priority : Int
  stamp : Nat
deriving Repr, DecidableEq

def Entry.key (entry : Entry n) : Nat ×ₗ Int := toLex (entry.when, entry.priority)

/-- The order of service. -/
def Entry.Before (x y : Entry n) : Prop := x.key < y.key ∨ x.key = y.key ∧ y.stamp < x.stamp

structure Agenda (n : Nat) where
  entries : List (Entry n) := []
  inserted : Nat := 0

namespace Agenda

def events (a : Agenda n) : List (Fin n) := a.entries.map Entry.event

structure Sorted (a : Agenda n) : Prop where
  order : a.entries.Pairwise Entry.Before
  stamped : ∀ entry ∈ a.entries, entry.stamp < a.inserted

variable (priority : Fin n → Int)

def insert (a : Agenda n) (event : Fin n) (when : Nat) : Agenda n where
  entries := a.entries.orderedInsert (fun x y => x.key ≤ y.key)
    ⟨event, when, priority event, a.inserted⟩
  inserted := a.inserted + 1

def remove (a : Agenda n) (event : Fin n) : Agenda n :=
  { a with entries := a.entries.filter fun entry => entry.event ≠ event }

def perform (a : Agenda n) : EventQueue.Action n → Option (Agenda n)
  | .schedule event when => if event ∈ a.events then none else some (a.insert priority event when)
  | .deschedule event => if event ∈ a.events then some (a.remove event) else none

omit priority in
/-- The youngest entry goes before those of its key and behind the lower ones. -/
theorem orderedInsert_before {new : Entry n} {entries : List (Entry n)}
    (order : entries.Pairwise Entry.Before) (older : ∀ entry ∈ entries, entry.stamp < new.stamp) :
    (entries.orderedInsert (fun x y => x.key ≤ y.key) new).Pairwise Entry.Before := by
  induction entries with
  | nil => simp
  | cons _ _ ih =>
    obtain ⟨ahead, behind⟩ := List.pairwise_cons.mp order
    rw [List.orderedInsert_cons]
    split
    next lower =>
      refine List.pairwise_cons.mpr ⟨fun entry mem => ?_, order⟩
      -- the new entry goes before those of its key, which are all older
      have notHigher : new.key ≤ entry.key := by
        rcases List.mem_cons.mp mem with rfl | later
        · exact lower
        · rcases ahead entry later with less | same
          · exact lower.trans less.le
          · exact lower.trans same.1.le
      rcases lt_or_eq_of_le notHigher with less | same
      · exact Or.inl less
      · exact Or.inr ⟨same, older entry mem⟩
    next higher =>
      refine List.pairwise_cons.mpr ⟨fun entry mem => ?_, ?_⟩
      · rcases (List.mem_orderedInsert _).mp mem with rfl | later
        · exact Or.inl (not_le.mp higher)
        · exact ahead entry later
      · exact ih behind fun entry mem => older entry (by simp [mem])

variable {a : Agenda n}

theorem insert_sorted (event : Fin n) (when : Nat) (sorted : a.Sorted) :
    (a.insert priority event when).Sorted where
  order := orderedInsert_before sorted.order sorted.stamped
  stamped entry mem := by
    rcases (List.mem_orderedInsert _).mp mem with rfl | old
    · exact Nat.lt_succ_self _
    · exact Nat.lt_succ_of_lt (sorted.stamped entry old)

theorem perform_sorted {action : EventQueue.Action n} {after : Agenda n} (sorted : a.Sorted)
    (performed : a.perform priority action = some after) : after.Sorted := by
  cases action with
  | schedule event when =>
    simp only [perform] at performed
    split at performed
    · cases performed
    · cases performed
      exact insert_sorted priority event when sorted
  | deschedule event =>
    simp only [perform] at performed
    split at performed
    · cases performed
      exact ⟨sorted.order.sublist List.filter_sublist,
        fun entry mem => sorted.stamped entry (List.mem_of_mem_filter mem)⟩
    · cases performed

end Agenda

/-- The list, and the events serviced so far. -/
structure Plan (n : Nat) where
  agenda : Agenda n := {}
  serviced : List (Fin n) := []

def Plan.step (priority : Fin n → Int) (p : Plan n) : Command n → Option (Plan n)
  | .call action => (p.agenda.perform priority action).map fun agenda => { p with agenda }
  | .serviceOne actions =>
    match p.agenda.entries with
    | [] => none
    | first :: rest =>
      (Runs.run (Agenda.perform priority) { p.agenda with entries := rest } actions).map
        fun agenda =>
        { agenda, serviced := p.serviced ++ [first.event] }

variable {p : Plan n}

theorem Plan.step_sorted {priority : Fin n → Int} {command : Command n} {after : Plan n}
    (sorted : p.agenda.Sorted) (stepped : p.step priority command = some after) :
    after.agenda.Sorted := by
  cases command with
  | call action =>
    simp only [step, Option.map_eq_some_iff] at stepped
    obtain ⟨agenda, performed, rfl⟩ := stepped
    exact Agenda.perform_sorted priority sorted performed
  | serviceOne actions =>
    simp only [step] at stepped
    split at stepped
    · cases stepped
    next rest shape =>
      obtain ⟨agenda, performed, rfl⟩ := Option.map_eq_some_iff.mp stepped
      have popped : Agenda.Sorted { p.agenda with entries := rest } := by
        have order := sorted.order
        have stamped := sorted.stamped
        rw [shape] at order stamped
        exact ⟨order.of_cons, fun entry mem => stamped entry (by simp [mem])⟩
      exact Runs.run_invariant
        (fun a action after sorted _ => Agenda.perform_sorted priority sorted) _ agenda actions
        popped (Runs.along_trivial _ actions) performed

/-! ## The queue follows the list -/

/-- The queue holds the entries of the list, as the stacks `bins`. -/
structure Holds (priority : Fin n → Int) (q : EventQueue n) (bins : List (Stack (Fin n)))
    (a : Agenda n) : Prop where
  linked : EventQueue.Linked q.event q.head bins
  sorted : Stacks.Sorted q.keys bins
  listed : contents bins = a.events
  dated : ∀ entry ∈ a.entries, q.keys entry.event = entry.key
  scheduled : ∀ e, (q.event e).scheduled = true ↔ e ∈ contents bins
  priority : ∀ e, (q.event e).priority = priority e

def Represents (priority : Fin n → Int) (q : EventQueue n) (a : Agenda n) : Prop :=
  ∃ bins, Holds priority q bins a

variable {s : Stack (Fin n)}

namespace EventQueue

variable {q : EventQueue n} {bins : List (Stack (Fin n))} {priority : Fin n → Int} {a : Agenda n}

theorem SameData.keys {q' : EventQueue n} (same : SameData q q') : q'.keys = q.keys := by
  funext e
  obtain ⟨when, priority, -⟩ := same e
  simp [EventQueue.keys, Event.key, when, priority]

/-- The flag has no part in the shape. -/
theorem setScheduled_pointers (q : EventQueue n) (e other : Fin n) (scheduled : Bool) :
    ((q.setScheduled e scheduled).event other).nextBin = (q.event other).nextBin ∧
      ((q.setScheduled e scheduled).event other).nextInBin = (q.event other).nextInBin := by
  by_cases here : other = e
  · subst here
    simp [setScheduled]
  · rw [setScheduled, set_other q other _ here]
    exact ⟨rfl, rfl⟩

theorem setScheduled_linked (e : Fin n) (scheduled : Bool) {p : Option (Fin n)}
    (linked : Linked q.event p bins) : Linked (q.setScheduled e scheduled).event p bins :=
  linked.congr (fun other _ => (setScheduled_pointers q e other scheduled).2)
    fun s _ => (setScheduled_pointers q e s.top scheduled).1

@[simp] theorem setScheduled_keys (q : EventQueue n) (e : Fin n) (scheduled : Bool) :
    (q.setScheduled e scheduled).keys = q.keys := by
  funext other
  by_cases here : other = e
  · subst here
    simp [keys, setScheduled, Event.key]
  · simp [keys, setScheduled, set_other q other _ here]

@[simp] theorem setScheduled_priority (q : EventQueue n) (e other : Fin n) (scheduled : Bool) :
    ((q.setScheduled e scheduled).event other).priority = (q.event other).priority := by
  by_cases here : other = e
  · subst here
    simp [setScheduled]
  · rw [setScheduled, set_other q other _ here]

theorem setScheduled_scheduled (q : EventQueue n) (e other : Fin n) (scheduled : Bool) :
    ((q.setScheduled e scheduled).event other).scheduled =
      if other = e then scheduled else (q.event other).scheduled := by
  by_cases here : other = e
  · subst here
    simp [setScheduled]
  · rw [setScheduled, set_other q other _ here, if_neg here]

theorem setWhen_other (q : EventQueue n) {e other : Fin n} (when : Nat) (ne : other ≠ e) :
    (q.setWhen e when).event other = q.event other :=
  set_other q other _ ne

theorem setWhen_data (q : EventQueue n) (e other : Fin n) (when : Nat) :
    ((q.setWhen e when).event other).priority = (q.event other).priority ∧
      ((q.setWhen e when).event other).scheduled = (q.event other).scheduled := by
  by_cases here : other = e
  · subst here
    simp [setWhen]
  · rw [setWhen_other q when here]
    exact ⟨rfl, rfl⟩

/-- Scheduling an event inserts its entry. -/
theorem schedule_holds {event : Fin n} (when : Nat) (holds : Holds priority q bins a)
    (fresh : event ∉ contents bins) : ∃ q', (q.setWhen event when).insert event = some q' ∧
      Represents priority (q'.setScheduled event true) (a.insert priority event when) := by
  -- the event is not in the queue, so its new date disturbs nobody
  have other : ∀ e ∈ contents bins, e ≠ event := fun e mem same => fresh (same ▸ mem)
  have dates : ∀ e ∈ contents bins, (q.setWhen event when).keys e = q.keys e := by
    intro e mem
    rw [keys, setWhen_other q when (other e mem), keys]
  have linked : Linked (q.setWhen event when).event (q.setWhen event when).head bins :=
    holds.linked.frame fun e mem => setWhen_other q when (other e mem)
  have sorted := holds.sorted.congr dates
  obtain ⟨q', inserted, data, relinked⟩ := insert_linked linked sorted fresh
  have own : (q.setWhen event when).keys event = toLex (when, priority event) := by
    simp [keys, setWhen, Event.key, holds.priority event]
  refine ⟨q', inserted, push (q.setWhen event when).keys event bins, ?_⟩
  refine ⟨setScheduled_linked event true relinked, ?_, ?_, ?_, ?_, ?_⟩
  · rw [setScheduled_keys, data.keys]
    exact sorted_push sorted fresh
  · rw [contents_push event sorted, holds.listed]
    -- the keys of the queue are those of the agenda
    have placed : ∀ entry ∈ a.entries, (q.setWhen event when).keys entry.event = entry.key := by
      intro entry mem
      rw [dates _ (by rw [holds.listed]; exact List.mem_map_of_mem mem)]
      exact holds.dated entry mem
    refine (List.map_orderedInsert (fun x y => x.key ≤ y.key)
      (fun x y => (q.setWhen event when).keys x ≤ (q.setWhen event when).keys y) Entry.event
        a.entries
      ⟨event, when, priority event, a.inserted⟩ ?_ ?_).symm
    · intro entry mem
      rw [placed entry mem, own]
      rfl
    · intro entry mem
      rw [placed entry mem, own]
      rfl
  · intro entry mem
    rw [setScheduled_keys, data.keys]
    rcases (List.mem_orderedInsert _).mp mem with rfl | old
    · exact own
    · have among : entry.event ∈ contents bins := by
        rw [holds.listed]
        exact List.mem_map_of_mem old
      rw [dates _ among]
      exact holds.dated entry old
  · intro e
    rw [setScheduled_scheduled, mem_contents_push event e bins sorted]
    -- the event is scheduled now, and the flags of the others stay
    by_cases here : e = event
    · simp [here]
    · rw [if_neg here, (data e).2.2, (setWhen_data q event e when).2]
      simpa [here] using holds.scheduled e
  · intro e
    rw [setScheduled_priority, (data e).2.1, (setWhen_data q event e when).1]
    exact holds.priority e

/-- Descheduling an event removes its entry. -/
theorem deschedule_holds (event : Fin n) (holds : Holds priority q bins a)
    (mem : event ∈ contents bins) : ∃ q', q.remove event = some q' ∧
      Represents priority (q'.setScheduled event false) (a.remove event) := by
  obtain ⟨q', removed, data, relinked⟩ := remove_linked holds.linked holds.sorted mem
  -- an event is in the agenda once, so to erase it is to filter it out
  have left : contents (Stacks.remove q.keys event bins) = (a.remove event).events := by
    rw [contents_remove event bins holds.sorted mem, holds.sorted.nodup.erase_eq_filter,
      holds.listed, Agenda.events, List.filter_map]
    simp only [Agenda.remove, Agenda.events, Function.comp_def, ne_eq, decide_not]
    rfl
  refine ⟨q', removed, Stacks.remove q.keys event bins, ?_⟩
  refine ⟨setScheduled_linked event false relinked, ?_, left, ?_, ?_, ?_⟩
  · rw [setScheduled_keys, data.keys]
    exact sorted_remove event bins holds.sorted mem
  · intro entry old
    rw [setScheduled_keys, data.keys]
    exact holds.dated entry (List.mem_of_mem_filter old)
  · intro e
    rw [setScheduled_scheduled, contents_remove event bins holds.sorted mem,
      holds.sorted.nodup.mem_erase_iff]
    by_cases here : e = event
    · simp [here]
    · rw [if_neg here, (data e).2.2]
      simpa [here] using holds.scheduled e
  · intro e
    rw [setScheduled_priority, (data e).2.1]
    exact holds.priority e

theorem perform_refines (priority : Fin n → Int) (q : EventQueue n) (a : Agenda n)
    (action : Action n) (represents : Represents priority q a) :
    Option.Rel (Represents priority) (q.perform action) (a.perform priority action) := by
  obtain ⟨_, holds⟩ := represents
  have flag : ∀ e, (q.event e).scheduled = true ↔ e ∈ a.events := by
    intro e
    rw [holds.scheduled e, holds.listed]
  cases action with
  | schedule event when =>
    simp only [perform, Agenda.perform]
    -- both sides assert that the event is not scheduled
    by_cases present : event ∈ a.events
    · rw [if_pos ((flag event).mpr present), if_pos present]
      exact .none
    · rw [if_neg fun set => present ((flag event).mp set), if_neg present]
      obtain ⟨_, inserted, after⟩ := schedule_holds when holds
        (by rw [holds.listed]; exact present)
      rw [inserted]
      exact .some after
  | deschedule event =>
    simp only [perform, Agenda.perform]
    by_cases present : event ∈ a.events
    · rw [if_pos ((flag event).mpr present), if_pos present]
      obtain ⟨_, removed, after⟩ := deschedule_holds event holds
        (by rw [holds.listed]; exact present)
      rw [removed]
      exact .some after
    · rw [if_neg fun set => present ((flag event).mp set), if_neg present]
      exact .none

/-! ### Servicing -/

/-- `serviceOne` takes the first event off the list. -/
theorem popHead_holds {first : Entry n} {rest : List (Entry n)}
    (holds : Holds priority q (s :: bins) a) (shape : a.entries = first :: rest) :
    ∃ q', q.popHead = some (first.event, q') ∧
      Represents priority q' { a with entries := rest } := by
  have head : q.head = some s.top := holds.linked.1
  have listed := holds.listed
  rw [Agenda.events, shape, List.map_cons, contents_cons] at listed
  obtain ⟨top, others⟩ := List.cons.inj listed
  -- from here on the pointers move as they do for a removal of the top
  have linked : Linked (q.setScheduled s.top false).event (some s.top) (s :: bins) := by
    have := setScheduled_linked s.top false holds.linked
    rwa [head] at this
  have sorted : Sorted (q.setScheduled s.top false).keys (s :: bins) := by
    rw [setScheduled_keys]
    exact holds.sorted
  obtain ⟨q', newTop, removed, data, -, -, relinked⟩ :=
    removeItem_linked s.top linked sorted (by simp [Stack.items])
  have popped : q.popHead = some (first.event, { q' with head := newTop }) := by
    simp only [removeItem, if_true] at removed
    simp only [popHead, head, Option.map_some, ← top]
    split
    next found =>
      rw [found] at removed
      cases removed
      rfl
    next found =>
      rw [found] at removed
      cases removed
      rfl
  have taken : Stacks.remove q.keys s.top (s :: bins) = (s.remove s.top).toList ++ bins := by
    simp [Stacks.remove]
  have left : contents ((s.remove s.top).toList ++ bins) = s.below ++ contents bins := by
    rw [← taken, contents_remove s.top (s :: bins) holds.sorted (by simp), contents_cons,
      List.erase_cons_head]
  have dates : EventQueue.keys { q' with head := newTop } = q.keys :=
    data.keys.trans (setScheduled_keys q s.top false)
  refine ⟨_, popped, (s.remove s.top).toList ++ bins, relinked, ?_, left.trans others, ?_, ?_, ?_⟩
  · rw [dates, ← taken]
    exact sorted_remove s.top (s :: bins) holds.sorted (by simp)
  · intro entry mem
    rw [dates]
    exact holds.dated entry (shape ▸ List.mem_cons_of_mem first mem)
  · intro e
    show (q'.event e).scheduled = true ↔ _
    rw [left, (data e).2.2, setScheduled_scheduled]
    have nodup := holds.sorted.nodup
    rw [contents_cons] at nodup
    by_cases here : e = s.top
    · subst here
      simpa using (List.nodup_cons.mp nodup).1
    · rw [if_neg here, holds.scheduled e, contents_cons, List.mem_cons]
      simp [here]
  · intro e
    show (q'.event e).priority = priority e
    rw [(data e).2.1, setScheduled_priority]
    exact holds.priority e

end EventQueue

/-- The queue and the list agree, and so do the events serviced. -/
def Follows (priority : Fin n → Int) (s : Simulation n) (p : Plan n) : Prop :=
  Represents priority s.queue p.agenda ∧ s.serviced = p.serviced

theorem Simulation.step_follows (priority : Fin n → Int) (s : Simulation n) (p : Plan n)
    (command : Command n) (follows : Follows priority s p) :
    Option.Rel (Follows priority) (s.step command) (p.step priority command) := by
  obtain ⟨represents, same⟩ := follows
  cases command with
  | call action =>
    exact Runs.rel_map (fun _ _ after => ⟨after, same⟩) _ _
      (EventQueue.perform_refines priority s.queue p.agenda action represents)
  | serviceOne actions =>
    obtain ⟨bins, holds⟩ := represents
    simp only [step, Plan.step]
    cases shape : p.agenda.entries with
    | nil =>
      -- with an empty agenda the queue has no head to service
      have empty : bins = [] := by
        have listed := holds.listed
        rw [Agenda.events, shape] at listed
        cases bins with
        | nil => rfl
        | cons => simp at listed
      have head : s.queue.head = none := by
        have linked := holds.linked
        rwa [empty] at linked
      simp only [EventQueue.popHead, head, Option.map_none, Option.bind_none]
      exact .none
    | cons _ rest =>
      cases bins with
      | nil =>
        have listed := holds.listed
        simp [Agenda.events, shape] at listed
      | cons =>
        obtain ⟨q', popped, represents⟩ := EventQueue.popHead_holds holds shape
        have ran := Runs.run_simulates (EventQueue.perform_refines priority) q'
          { p.agenda with entries := rest } actions represents
        simp only [popped, Option.bind_some]
        exact Runs.rel_map (fun _ _ after => ⟨after, by rw [same]⟩) _ _ ran

/-! ## What the pointers show -/

namespace EventQueue

theorem binItems_eq (q : EventQueue n) (fuel : Nat) (p : Option (Fin n)) {items : List (Fin n)}
    (enough : items.length ≤ fuel) (inBin : InBin q.event p items) :
    q.binItems fuel p = some items := by
  induction items generalizing fuel p with
  | nil =>
    obtain rfl : p = none := inBin
    cases fuel <;> rfl
  | cons _ _ ih =>
    obtain ⟨rfl, rest⟩ := inBin
    cases fuel with
    | zero => simp at enough
    | succ fuel =>
      simp only [binItems]
      rw [ih fuel _ (by simpa using enough) rest, Option.map_some]

variable {q : EventQueue n} {bins : List (Stack (Fin n))}

theorem binsFrom_eq (fuel : Nat) (p : Option (Fin n)) (enough : bins.length ≤ fuel)
    (nodup : (contents bins).Nodup) (linked : Linked q.event p bins) :
    q.binsFrom fuel p = some (contents bins) := by
  induction bins generalizing fuel p with
  | nil =>
    obtain rfl : p = none := linked
    cases fuel <;> rfl
  | cons s rest ih =>
    obtain ⟨rfl, below, later⟩ := linked
    have whole : (s.items ++ contents rest).Nodup := nodup
    obtain ⟨own, behind, -⟩ := List.nodup_append.mp whole
    cases fuel with
    | zero => simp at enough
    | succ fuel =>
      have few : s.items.length ≤ n := by
        have bound := own.length_le_card
        rwa [Fintype.card_fin] at bound
      have items : q.binItems n (some s.top) = some s.items := binItems_eq q n _ few ⟨rfl, below⟩
      simp only [binsFrom]
      rw [items, ih fuel _ (by simpa using enough) behind later]
      rfl

theorem dump_eq (linked : Linked q.event q.head bins) (nodup : (contents bins).Nodup) :
    q.dump = some (contents bins) :=
  binsFrom_eq n q.head (bins_le nodup) nodup linked

/-- The tops of the stacks. -/
def topsFrom (q : EventQueue n) : Nat → Option (Fin n) → List (Fin n)
  | _, none => []
  | 0, some _ => []
  | fuel + 1, some top => top :: q.topsFrom fuel (q.event top).nextBin

/-- The queue with other `nextBin` pointers in all events but the tops of the
stacks. -/
def scribble (q : EventQueue n) (junk : Fin n → Option (Fin n)) : EventQueue n :=
  { q with
    event := fun e =>
      if e ∈ q.topsFrom n q.head then q.event e else { q.event e with nextBin := junk e } }

theorem mem_topsFrom (fuel : Nat) (p : Option (Fin n)) (enough : bins.length ≤ fuel)
    (linked : Linked q.event p bins) (mem : s ∈ bins) : s.top ∈ q.topsFrom fuel p := by
  induction bins generalizing fuel p with
  | nil => simp at mem
  | cons _ _ ih =>
    obtain ⟨rfl, -, later⟩ := linked
    cases fuel with
    | zero => simp at enough
    | succ fuel =>
      simp only [topsFrom, List.mem_cons]
      rcases List.mem_cons.mp mem with rfl | behind
      · exact Or.inl rfl
      · exact Or.inr (ih fuel _ (by simpa using enough) later behind)

/-- Stale pointers are no part of what the queue represents. -/
theorem scribble_represents {priority : Fin n → Int} {a : Agenda n}
    (junk : Fin n → Option (Fin n)) (represents : Represents priority q a) :
    Represents priority (q.scribble junk) a := by
  obtain ⟨bins, holds⟩ := represents
  have kept : ∀ e, ((q.scribble junk).event e).nextInBin = (q.event e).nextInBin ∧
      (q.scribble junk).keys e = q.keys e ∧
      ((q.scribble junk).event e).scheduled = (q.event e).scheduled ∧
      ((q.scribble junk).event e).priority = (q.event e).priority := by
    intro _
    simp only [scribble, keys]
    split
    · exact ⟨rfl, rfl, rfl, rfl⟩
    · exact ⟨rfl, rfl, rfl, rfl⟩
  -- the walk along the tops has enough fuel to meet all of them
  have few := bins_le holds.sorted.nodup
  refine ⟨bins, ?_, holds.sorted.congr fun e _ => (kept e).2.1, holds.listed, ?_, ?_, ?_⟩
  · refine holds.linked.congr (fun e _ => (kept e).1) fun s mem => ?_
    simp only [scribble, mem_topsFrom n q.head few holds.linked mem, if_true]
  · intro entry mem
    rw [(kept _).2.1]
    exact holds.dated entry mem
  · intro e
    rw [(kept e).2.2.1]
    exact holds.scheduled e
  · intro e
    rw [(kept e).2.2.2]
    exact holds.priority e

end EventQueue

/-- No event is scheduled. -/
def Simulation.initial (priority : Fin n → Int) : Simulation n where
  queue := { event := fun e => { priority := priority e } }

theorem Simulation.initial_follows (priority : Fin n → Int) :
    Follows priority (initial priority) {} := by
  refine ⟨⟨[], rfl, ⟨by simp, List.Pairwise.nil, List.nodup_nil⟩, rfl, by simp, ?_, fun _ => rfl⟩,
    rfl⟩
  intro _
  simp [initial]

/-- What can be seen of a run: the events in the order of the queue, and the
events serviced. -/
def Simulation.observed (s : Simulation n) : Option (List (Fin n)) × List (Fin n) :=
  (s.queue.dump, s.serviced)

/-- What can be seen of the list. -/
def Plan.observed (p : Plan n) : Option (List (Fin n)) × List (Fin n) :=
  (some p.agenda.events, p.serviced)

theorem Follows.observed {priority : Fin n → Int} {s : Simulation n}
    (follows : Follows priority s p) : s.observed = p.observed := by
  obtain ⟨⟨_, holds⟩, same⟩ := follows
  simp only [Simulation.observed, Plan.observed, same,
    EventQueue.dump_eq holds.linked holds.sorted.nodup, holds.listed]

theorem run_observed {priority : Fin n → Int} {s : Simulation n} (commands : List (Command n))
    (follows : Follows priority s p) :
    (Runs.run Simulation.step s commands).map Simulation.observed =
      (Runs.run (Plan.step priority) p commands).map Plan.observed := by
  have ran := Runs.run_simulates (Simulation.step_follows priority) s p commands follows
  generalize Runs.run Simulation.step s commands = result at ran
  generalize Runs.run (Plan.step priority) p commands = expected at ran
  cases ran with
  | none => rfl
  | some follows => rw [Option.map_some, Option.map_some, follows.observed]

/-- Every run of the queue is the run of the sorted list: it fails only where the
list has nothing to remove or to service or already has the event, and it shows
the same events in the same order. The list is always sorted, last inserted
first. Whatever the stale pointers are at any time, every further run shows the
same. -/
theorem eventQueue_refines (priority : Fin n → Int) (commands : List (Command n)) :
    (Runs.run Simulation.step (Simulation.initial priority) commands).map Simulation.observed =
      (Runs.run (Plan.step priority) {} commands).map Plan.observed ∧
    (∀ p, Runs.run (Plan.step priority) {} commands = some p → p.agenda.Sorted) ∧
    ∀ s, Runs.run Simulation.step (Simulation.initial priority) commands = some s →
      ∀ (junk : Fin n → Option (Fin n)) (more : List (Command n)),
        (Runs.run Simulation.step { s with queue := s.queue.scribble junk } more).map
            Simulation.observed =
          (Runs.run Simulation.step s more).map Simulation.observed := by
  have start := Simulation.initial_follows priority
  refine ⟨run_observed commands start, fun p ran => ?_, fun s ran junk more => ?_⟩
  · exact Runs.run_invariant (fun p command after sorted _ => Plan.step_sorted
      sorted) {} p commands ⟨List.Pairwise.nil, by simp⟩ (Runs.along_trivial _ commands) ran
  · have simulated := Runs.run_simulates (Simulation.step_follows priority) _ _ commands start
    rw [ran] at simulated
    generalize Runs.run (Plan.step priority) {} commands = expected at simulated
    cases simulated with
    | some follows =>
      have scribbled : Follows priority { s with queue := s.queue.scribble junk } _ :=
        ⟨EventQueue.scribble_represents junk follows.1, follows.2⟩
      rw [run_observed more scribbled, run_observed more follows]

end RasCache.Sim
