import RasCache.Foundation.Runs
import RasCache.Foundation.Stacks
import Mathlib.Data.Fintype.Card
import Mathlib.Data.Prod.Lex

/-!
# The event queue

Model of `EventQueue` (`sim/eventq.cc`) for `n` event objects. The queue is a
list of stacks, linked through two pointers of the events themselves: `nextInBin`
leads down a stack, and `nextBin` leads from the top of a stack to the top of the
next one. The `nextBin` of an event that is not the top of its stack is stale.

A panic, the use of a null pointer and a loop that does not end are `none`: a
walk over more than `n` pointers has met some event twice.
-/
namespace RasCache.Sim

/-- The part of an event the queue reads or writes. The priority is set by the
constructor of the event. -/
structure Event (n : Nat) where
  priority : Int
  when : Nat := 0
  nextBin : Option (Fin n) := none
  nextInBin : Option (Fin n) := none
  scheduled : Bool := false
deriving Repr, DecidableEq

structure EventQueue (n : Nat) where
  event : Fin n → Event n
  head : Option (Fin n) := none

namespace Event

variable {n : Nat}

/-- `operator<`. -/
def less (l r : Event n) : Bool :=
  l.when < r.when || (l.when = r.when && l.priority < r.priority)

/-- `operator<=`. -/
def lessEq (l r : Event n) : Bool :=
  l.when < r.when || (l.when = r.when && l.priority ≤ r.priority)

/-- `operator==`. -/
def equal (l r : Event n) : Bool := l.when = r.when && l.priority = r.priority

/-- What the operators compare. -/
def key (e : Event n) : Nat ×ₗ Int := toLex (e.when, e.priority)

variable {l r : Event n}

theorem less_iff : l.less r = true ↔ l.key < r.key := by
  simp [less, key, Prod.Lex.toLex_lt_toLex]

theorem lessEq_iff (l r : Event n) : l.lessEq r = true ↔ l.key ≤ r.key := by
  simp [lessEq, key, Prod.Lex.toLex_le_toLex]

theorem equal_iff : l.equal r = true ↔ l.key = r.key := by
  simp [equal, key]

end Event

namespace EventQueue

variable {n : Nat}

def set (q : EventQueue n) (e : Fin n) (event : Event n) : EventQueue n :=
  { q with event := Function.update q.event e event }

def setNextBin (q : EventQueue n) (e : Fin n) (p : Option (Fin n)) : EventQueue n :=
  q.set e { q.event e with nextBin := p }

def setScheduled (q : EventQueue n) (e : Fin n) (scheduled : Bool) : EventQueue n :=
  q.set e { q.event e with scheduled }

def setWhen (q : EventQueue n) (e : Fin n) (when : Nat) : EventQueue n :=
  q.set e { q.event e with when }

/-- `Event::insertBefore`, which returns `event`. -/
def insertBefore (q : EventQueue n) (event : Fin n) : Option (Fin n) → EventQueue n
  | none => q.set event { q.event event with nextBin := none, nextInBin := none }
  | some curr =>
    if (q.event event).less (q.event curr) then
      q.set event { q.event event with nextBin := some curr, nextInBin := none }
    else
      -- the pointer of `curr` can now become stale
      q.set event
        { q.event event with nextBin := (q.event curr).nextBin, nextInBin := some curr }

/-- The walk over the stacks that `insert` and `remove` share. -/
def findBin (q : EventQueue n) (event : Fin n) :
    Nat → Fin n → Option (Fin n) → Option (Fin n × Option (Fin n))
  | _, prev, none => some (prev, none)
  | 0, _, some _ => none
  | fuel + 1, prev, some curr =>
    if (q.event curr).less (q.event event) then
      findBin q event fuel curr (q.event curr).nextBin
    else some (prev, some curr)

def insert (q : EventQueue n) (event : Fin n) : Option (EventQueue n) :=
  match q.head with
  | none => some { q.insertBefore event none with head := some event }
  | some head =>
    if (q.event event).lessEq (q.event head) then
      some { q.insertBefore event (some head) with head := some event }
    else
      (q.findBin event n head (q.event head).nextBin).map fun found =>
        (q.insertBefore event found.2).setNextBin found.1 (some event)

/-- The walk of `Event::removeItem` down a stack, to the event above `event`. -/
def findInBin (q : EventQueue n) (event : Fin n) : Nat → Fin n → Option (Fin n) → Option (Fin n)
  | _, _, none => none
  | 0, _, some _ => none
  | fuel + 1, curr, some next =>
    if event = next then some curr else findInBin q event fuel next (q.event next).nextInBin

/-- `Event::removeItem`, with the new top of the stack. -/
def removeItem (q : EventQueue n) (event top : Fin n) :
    Option (EventQueue n × Option (Fin n)) :=
  if event = top then
    match (q.event top).nextInBin with
    | none => some (q, (q.event top).nextBin)
    | some next => some (q.setNextBin next (q.event top).nextBin, some next)
  else
    (q.findInBin event n top (q.event top).nextInBin).map fun curr =>
      (q.set curr { q.event curr with nextInBin := (q.event event).nextInBin }, some top)

def remove (q : EventQueue n) (event : Fin n) : Option (EventQueue n) :=
  match q.head with
  | none => none
  | some head =>
    if (q.event head).equal (q.event event) then
      (q.removeItem event head).map fun removed => { removed.1 with head := removed.2 }
    else
      match q.findBin event n head (q.event head).nextBin with
      | some (prev, some curr) =>
        if (q.event curr).equal (q.event event) then
          (q.removeItem event curr).map fun removed => removed.1.setNextBin prev removed.2
        else none
      | _ => none

/-- `serviceOne` up to the action: the event that is taken off the queue. -/
def popHead (q : EventQueue n) : Option (Fin n × EventQueue n) :=
  q.head.map fun event =>
    let q := q.setScheduled event false
    match (q.event event).nextInBin with
    | some next => (event, { q.setNextBin next (q.event event).nextBin with head := some next })
    | none => (event, { q with head := (q.event event).nextBin })

/-- The inner loop of `dump`, down one stack. -/
def binItems (q : EventQueue n) : Nat → Option (Fin n) → Option (List (Fin n))
  | _, none => some []
  | 0, some _ => none
  | fuel + 1, some e => (q.binItems fuel (q.event e).nextInBin).map fun items => e :: items

/-- The outer loop of `dump`. -/
def binsFrom (q : EventQueue n) : Nat → Option (Fin n) → Option (List (Fin n))
  | _, none => some []
  | 0, some _ => none
  | fuel + 1, some top =>
    (q.binItems n (some top)).bind fun items =>
      (q.binsFrom fuel (q.event top).nextBin).map fun rest => items ++ rest

/-- The events in the order in which `dump` prints them. -/
def dump (q : EventQueue n) : Option (List (Fin n)) := q.binsFrom n q.head

inductive Action (n : Nat) where
  | schedule (event : Fin n) (when : Nat)
  | deschedule (event : Fin n)
deriving Repr, DecidableEq

def perform (q : EventQueue n) : Action n → Option (EventQueue n)
  | .schedule event when =>
    if (q.event event).scheduled then none
    else
      ((q.setWhen event when).insert event).map fun q => q.setScheduled event true
  | .deschedule event =>
    if (q.event event).scheduled then
      (q.remove event).map fun q => q.setScheduled event false
    else none

end EventQueue

/-- The queue, and the events serviced so far. -/
structure Simulation (n : Nat) where
  queue : EventQueue n
  serviced : List (Fin n) := []

/-- A call from outside, or `serviceOne` with what the action of the event does. -/
inductive Command (n : Nat) where
  | call (action : EventQueue.Action n)
  | serviceOne (actions : List (EventQueue.Action n))
deriving Repr, DecidableEq

namespace Simulation

variable {n : Nat}

def step (s : Simulation n) : Command n → Option (Simulation n)
  | .call action => (s.queue.perform action).map fun queue => { s with queue }
  | .serviceOne actions =>
    s.queue.popHead.bind fun popped =>
      (Runs.run EventQueue.perform popped.2 actions).map fun queue =>
        { queue, serviced := s.serviced ++ [popped.1] }

end Simulation

/-! ## The shape of the heap -/

open Stacks

namespace EventQueue

variable {n : Nat}

/-- The pointer `p` leads down the stack of `events`. -/
def InBin (event : Fin n → Event n) : Option (Fin n) → List (Fin n) → Prop
  | p, [] => p = none
  | p, e :: below => p = some e ∧ InBin event (event e).nextInBin below

/-- The pointer `p` leads over the tops of the stacks `bins`. Nothing is said of
the `nextBin` of the other events. -/
def Linked (event : Fin n → Event n) : Option (Fin n) → List (Stack (Fin n)) → Prop
  | p, [] => p = none
  | p, s :: rest =>
    p = some s.top ∧ InBin event (event s.top).nextInBin s.below ∧
      Linked event (event s.top).nextBin rest

variable {event' : Fin n → Event n} {p : Option (Fin n)} {bins rest : List (Stack (Fin n))}
  {s : Stack (Fin n)} {q : EventQueue n} {event : Fin n}

variable {below : List (Fin n)} {e : Fin n}

theorem InBin.congr {event : Fin n → Event n} (inBin : InBin event p below)
    (same : ∀ e ∈ below, (event' e).nextInBin = (event e).nextInBin) : InBin event' p below := by
  induction below generalizing p with
  | nil => exact inBin
  | cons e _ ih =>
    refine ⟨inBin.1, ih ?_ fun x mem => same x (by simp [mem])⟩
    rw [same e (by simp)]
    exact inBin.2

/-- The shape depends on the `nextBin` of the tops only. -/
theorem Linked.congr {event : Fin n → Event n} (linked : Linked event p bins)
    (inBin : ∀ e ∈ contents bins, (event' e).nextInBin = (event e).nextInBin)
    (tops : ∀ s ∈ bins, (event' s.top).nextBin = (event s.top).nextBin) : Linked event' p bins := by
  induction bins generalizing p with
  | nil => exact linked
  | cons s _ ih =>
    obtain ⟨here, below, later⟩ := linked
    refine ⟨here, ?_, ?_⟩
    · rw [inBin s.top (by simp)]
      exact below.congr fun e mem => inBin e (by simp [mem])
    · rw [tops s (by simp)]
      exact ih later (fun e mem => inBin e (by simp [mem]))
        fun t mem => tops t (by simp [mem])

theorem Linked.frame {event : Fin n → Event n} (linked : Linked event p bins)
    (same : ∀ e ∈ contents bins, event' e = event e) : Linked event' p bins := by
  refine linked.congr (fun e mem => by rw [same e mem]) fun s mem => ?_
  rw [same s.top (List.mem_flatMap.mpr ⟨s, mem, by simp [Stack.items]⟩)]

/-- A stack stands in front of others. -/
theorem Linked.behind {event : Fin n → Event n}
    (inBin : InBin event (event s.top).nextInBin s.below)
    (same : ∀ e ∈ s.items, (event' e).nextInBin = (event e).nextInBin)
    (later : Linked event' (event' s.top).nextBin rest) :
    Linked event' (some s.top) (s :: rest) := by
  refine ⟨rfl, ?_, later⟩
  rw [same s.top (by simp [Stack.items])]
  exact inBin.congr fun e mem => same e (by simp [Stack.items, mem])

/-- The events of a stack are not behind it. -/
theorem item_not_behind {key : Fin n → Nat ×ₗ Int} (sorted : Sorted key (s :: rest)) (e : Fin n)
    (item : e ∈ s.items) : e ∉ contents rest := by
  have nodup : (s.items ++ contents rest).Nodup := sorted.nodup
  exact List.disjoint_of_nodup_append nodup item

@[simp] theorem set_same (q : EventQueue n) (e : Fin n) (event : Event n) :
    (q.set e event).event e = event := by
  simp [set]

theorem set_other (q : EventQueue n) (other : Fin n) (event : Event n) (ne : other ≠ e) :
    (q.set e event).event other = q.event other := by
  simp [set, ne]

/-- The order of the events. -/
def keys (q : EventQueue n) (e : Fin n) : Nat ×ₗ Int := (q.event e).key

/-- What the operations on the pointers leave alone. -/
def SameData (q q' : EventQueue n) : Prop :=
  ∀ e, (q'.event e).when = (q.event e).when ∧ (q'.event e).priority = (q.event e).priority ∧
    (q'.event e).scheduled = (q.event e).scheduled

theorem SameData.refl (q : EventQueue n) : SameData q q := fun _ => ⟨rfl, rfl, rfl⟩

theorem SameData.trans {r t : EventQueue n} (first : SameData q r) (second : SameData r t) :
    SameData q t := by
  intro e
  obtain ⟨w, p, s⟩ := first e
  obtain ⟨w', p', s'⟩ := second e
  exact ⟨w'.trans w, p'.trans p, s'.trans s⟩

theorem SameData.set (q : EventQueue n) (e : Fin n) (bin inBin : Option (Fin n)) :
    SameData q (q.set e { q.event e with nextBin := bin, nextInBin := inBin }) := by
  intro other
  by_cases here : other = e
  · subst here
    simp
  · rw [set_other q other _ here]
    exact ⟨rfl, rfl, rfl⟩

theorem setNextBin_sameData (q : EventQueue n) (e : Fin n) (p : Option (Fin n)) :
    SameData q (q.setNextBin e p) :=
  SameData.set q e p (q.event e).nextInBin

theorem insertBefore_sameData (q : EventQueue n) (event : Fin n) (p : Option (Fin n)) :
    SameData q (q.insertBefore event p) := by
  cases p with
  | none => exact SameData.set q event none none
  | some curr =>
    simp only [insertBefore]
    split
    · exact SameData.set q event (some curr) none
    · exact SameData.set q event (q.event curr).nextBin (some curr)

@[simp] theorem insertBefore_head (q : EventQueue n) (event : Fin n) (p : Option (Fin n)) :
    (q.insertBefore event p).head = q.head := by
  cases p with
  | none => rfl
  | some =>
    simp only [insertBefore]
    split <;> rfl

theorem insertBefore_other (q : EventQueue n) (event other : Fin n) (p : Option (Fin n))
    (ne : other ≠ event) : (q.insertBefore event p).event other = q.event other := by
  cases p with
  | none => exact set_other q other _ ne
  | some =>
    simp only [insertBefore]
    split <;> exact set_other q other _ ne

@[simp] theorem setNextBin_nextInBin (q : EventQueue n) (e other : Fin n) (p : Option (Fin n)) :
    ((q.setNextBin e p).event other).nextInBin = (q.event other).nextInBin := by
  by_cases here : other = e
  · subst here
    simp [setNextBin]
  · rw [setNextBin, set_other q other _ here]

@[simp] theorem setNextBin_nextBin (q : EventQueue n) (e : Fin n) (p : Option (Fin n)) :
    ((q.setNextBin e p).event e).nextBin = p := by
  simp [setNextBin]

theorem setNextBin_other (q : EventQueue n) {other : Fin n} (p : Option (Fin n)) (ne : other ≠ e) :
    (q.setNextBin e p).event other = q.event other :=
  set_other q other _ ne

/-! ### Insertion -/

/-- In front of a list of stacks that are not earlier, `insertBefore` makes the
event the first top. -/
theorem insertBefore_linked {q : EventQueue n} {p : Option (Fin n)}
    (linked : Linked q.event p bins) (fresh : event ∉ contents bins)
    (notEarlier : ∀ s ∈ bins.head?, ¬ q.keys s.top < q.keys event) :
    Linked (q.insertBefore event p).event (some event) (push q.keys event bins) := by
  have others : ∀ e ∈ contents bins, (q.insertBefore event p).event e = q.event e :=
    fun e mem => insertBefore_other q event e p fun same => fresh (same ▸ mem)
  cases bins with
  | nil =>
    obtain rfl : p = none := linked
    simp [push, Linked, InBin, insertBefore]
  | cons s rest =>
    obtain ⟨rfl, below, later⟩ := linked
    have whole : Linked q.event (some s.top) (s :: rest) := ⟨rfl, below, later⟩
    have framed := whole.frame others
    simp only [push]
    by_cases earlier : q.keys event < q.keys s.top
    · have before : (q.event event).less (q.event s.top) = true := Event.less_iff.mpr earlier
      rw [if_pos earlier]
      refine ⟨rfl, ?_, ?_⟩
      · simp [insertBefore, before, InBin]
      · have next : ((q.insertBefore event (some s.top)).event event).nextBin = some s.top := by
          simp [insertBefore, before]
        rw [next]
        exact framed
    · -- neither earlier nor later: the event comes on top of the bin
      have same : q.keys event = q.keys s.top :=
        le_antisymm (not_lt.mp (notEarlier s (by simp))) (not_lt.mp earlier)
      have after : (q.event event).less (q.event s.top) = false :=
        eq_false_of_ne_true fun less => earlier (Event.less_iff.mp less)
      rw [if_neg earlier, if_pos same]
      have next : ((q.insertBefore event (some s.top)).event event).nextInBin = some s.top := by
        simp [insertBefore, after]
      have bin : ((q.insertBefore event (some s.top)).event event).nextBin =
          (q.event s.top).nextBin := by
        simp [insertBefore, after]
      refine ⟨rfl, ?_, ?_⟩
      · rw [next]
        exact ⟨rfl, framed.2.1⟩
      · rw [bin, ← others s.top (by simp)]
        exact framed.2.2

/-- The event is linked in behind the stack `s`. -/
theorem push_behind (linked : Linked q.event (some s.top) (s :: rest))
    (sorted : Sorted q.keys (s :: rest)) (fresh : event ∉ contents (s :: rest))
    (notEarlier : ∀ t ∈ rest.head?, ¬ q.keys t.top < q.keys event)
    (next : (q.event s.top).nextBin = p) :
    Linked ((q.insertBefore event p).setNextBin s.top (some event)).event (some s.top)
      (s :: push q.keys event rest) := by
  subst next
  have own : event ∉ s.items := fun mem => fresh (List.mem_append_left _ mem)
  have behind : event ∉ contents rest := fun mem => fresh (List.mem_append_right _ mem)
  have first := insertBefore_linked linked.2.2 behind notEarlier
  refine Linked.behind linked.2.1 (fun e item => ?_) ?_
  · rw [setNextBin_nextInBin, insertBefore_other q event e _ fun same => own (same ▸ item)]
  · rw [setNextBin_nextBin]
    refine first.frame fun e mem => setNextBin_other _ _ fun same => ?_
    subst same
    rcases (mem_contents_push event s.top rest sorted.tail).mp mem with same | later
    · exact own (same ▸ by simp [Stack.items])
    · exact item_not_behind sorted s.top (by simp [Stack.items]) later

/-- The walk of `insert` behind the stack `s`. -/
theorem insert_walk (fuel : Nat) (s : Stack (Fin n)) (enough : rest.length ≤ fuel)
    (linked : Linked q.event (some s.top) (s :: rest)) (sorted : Sorted q.keys (s :: rest))
    (fresh : event ∉ contents (s :: rest)) (earlier : q.keys s.top < q.keys event) :
    ∃ prev curr, q.findBin event fuel s.top (q.event s.top).nextBin = some (prev, curr) ∧
      prev ∈ contents (s :: rest) ∧
      Linked ((q.insertBefore event curr).setNextBin prev (some event)).event (some s.top)
        (s :: push q.keys event rest) := by
  -- the walk stands behind the bin of `s`, which is earlier than the event
  induction rest generalizing s fuel with
  | nil =>
    have last : (q.event s.top).nextBin = none := linked.2.2
    refine ⟨s.top, none, by rw [last]; cases fuel <;> rfl, by simp, ?_⟩
    exact push_behind linked sorted fresh (by simp) last
  | cons t rest ih =>
    obtain ⟨-, below, next, inBin, later⟩ := linked
    have behind : event ∉ contents (t :: rest) := fun mem =>
      fresh (List.mem_cons_of_mem _ (List.mem_append_right _ mem))
    have whole : Linked q.event (some t.top) (t :: rest) := ⟨rfl, inBin, later⟩
    cases fuel with
    | zero => simp at enough
    | succ fuel =>
      rw [next]
      simp only [findBin]
      by_cases before : q.keys t.top < q.keys event
      · have less : (q.event t.top).less (q.event event) = true := Event.less_iff.mpr before
        rw [if_pos less]
        obtain ⟨prev, curr, found, among, relinked⟩ :=
          ih fuel t (by simpa using enough) whole sorted.tail behind before
        refine ⟨prev, curr, found, List.mem_cons_of_mem _ (List.mem_append_right _ among), ?_⟩
        have untouched : ∀ e ∈ s.items,
            ((q.insertBefore event curr).setNextBin prev (some event)).event e = q.event e := by
          intro e item
          rw [setNextBin_other, insertBefore_other]
          · exact fun same => fresh (same ▸ List.mem_append_left _ item)
          · exact fun same => item_not_behind sorted e item (same ▸ among)
        refine Linked.behind below (fun e item => by rw [untouched e item]) ?_
        rw [untouched s.top (by simp [Stack.items]), next]
        have skipped : push q.keys event (t :: rest) = t :: push q.keys event rest := by
          simp [push, before.not_gt, before.ne']
        rw [skipped]
        exact relinked
      · have notLess : (q.event t.top).less (q.event event) = false :=
          eq_false_of_ne_true fun less => before (Event.less_iff.mp less)
        refine ⟨s.top, some t.top, by simp [notLess], by simp, ?_⟩
        exact push_behind ⟨rfl, below, next, inBin, later⟩ sorted fresh (by simpa using before) next

/-- A bin has an event of its own. -/
theorem bins_le (nodup : (contents bins).Nodup) : bins.length ≤ n := by
  have bound := nodup.length_le_card
  rw [Fintype.card_fin] at bound
  exact (length_le_contents bins).trans bound

theorem insert_linked (linked : Linked q.event q.head bins) (sorted : Sorted q.keys bins)
    (fresh : event ∉ contents bins) : ∃ q', q.insert event = some q' ∧ SameData q q' ∧
      Linked q'.event q'.head (push q.keys event bins) := by
  simp only [insert]
  cases bins with
  | nil =>
    have empty : q.head = none := linked
    rw [empty]
    refine ⟨_, rfl, insertBefore_sameData q event none, ?_⟩
    exact insertBefore_linked rfl fresh (by simp)
  | cons s rest =>
    have first : q.head = some s.top := linked.1
    rw [first] at linked ⊢
    simp only
    -- the event goes in front, or behind the last bin that comes before it
    by_cases before : q.keys event ≤ q.keys s.top
    · rw [if_pos ((Event.lessEq_iff _ _).mpr before)]
      refine ⟨_, rfl, insertBefore_sameData q event (some s.top), ?_⟩
      exact insertBefore_linked linked fresh (by simpa using before)
    · have later := not_le.mp before
      rw [if_neg fun lessEq => before ((Event.lessEq_iff _ _).mp lessEq)]
      have few : rest.length ≤ n := Nat.le_of_succ_le (bins_le sorted.nodup)
      obtain ⟨prev, curr, found, -, relinked⟩ := insert_walk n s few linked sorted fresh later
      rw [found]
      refine ⟨_, rfl, (insertBefore_sameData q event curr).trans (setNextBin_sameData _ _ _), ?_⟩
      have skipped : push q.keys event (s :: rest) = s :: push q.keys event rest := by
        simp [push, later.not_gt, later.ne']
      rw [skipped]
      have kept : ((q.insertBefore event curr).setNextBin prev (some event)).head = q.head :=
        insertBefore_head q event curr
      rw [kept, first]
      exact relinked

/-! ### Removal -/

/-- The walk down a stack, from `curr`: the event found is above `event`, and with
its pointer moved on the stack is linked without `event`. -/
theorem unlink_walk (fuel : Nat) (curr : Fin n) (enough : below.length ≤ fuel)
    (inBin : InBin q.event (q.event curr).nextInBin below) (nodup : (curr :: below).Nodup)
    (mem : event ∈ below) :
    ∃ above ∈ curr :: below, q.findInBin event fuel curr (q.event curr).nextInBin = some above ∧
      InBin (q.set above { q.event above with nextInBin := (q.event event).nextInBin }).event
        ((q.set above { q.event above with nextInBin := (q.event event).nextInBin }).event
          curr).nextInBin (below.erase event) := by
  induction below generalizing curr fuel with
  | nil => simp at mem
  | cons first _ ih =>
    obtain ⟨next, rest⟩ := inBin
    obtain ⟨fresh, nodup⟩ := List.nodup_cons.mp nodup
    rw [next]
    cases fuel with
    | zero => simp at enough
    | succ fuel =>
      simp only [findInBin]
      by_cases here : event = first
      · -- the event is next, and its pointer is taken over
        subst here
        refine ⟨curr, by simp, by simp, ?_⟩
        rw [set_same, List.erase_cons_head]
        refine rest.congr fun e among => ?_
        rw [set_other]
        exact fun same => fresh (List.mem_cons_of_mem _ (same ▸ among))
      · rw [if_neg here]
        obtain ⟨above, among, found, unlinked⟩ := ih fuel first (by simpa using enough) rest nodup
          ((List.mem_cons.mp mem).resolve_left here)
        refine ⟨above, List.mem_cons_of_mem _ among, found, ?_⟩
        rw [set_other _ curr _ fun same => fresh (same ▸ among), next,
          List.erase_cons_tail (by simpa using Ne.symm here)]
        exact ⟨rfl, unlinked⟩

theorem removeItem_linked (event : Fin n) (linked : Linked q.event (some s.top) (s :: rest))
    (sorted : Sorted q.keys (s :: rest)) (item : event ∈ s.items) :
    ∃ q' newTop, q.removeItem event s.top = some (q', newTop) ∧ SameData q q' ∧ q'.head = q.head ∧
      (∀ e ∉ s.items, q'.event e = q.event e) ∧
      Linked q'.event newTop ((s.remove event).toList ++ rest) := by
  obtain ⟨-, below, later⟩ := linked
  have nodup : (s.items ++ contents rest).Nodup := sorted.nodup
  have own : s.items.Nodup := (List.nodup_append.mp nodup).1
  simp only [removeItem, Stack.remove]
  by_cases top : event = s.top
  · rw [if_pos top, if_pos top]
    cases shape : s.below with
    | nil =>
      have last : (q.event s.top).nextInBin = none := by rwa [shape] at below
      rw [last]
      exact ⟨_, _, rfl, SameData.refl q, rfl, fun _ _ => rfl, later⟩
    | cons first =>
      -- the next item is the new top and takes the pointer to the next bin over
      rw [shape] at below
      obtain ⟨next, inBin⟩ := below
      rw [next]
      have listed : first ∈ s.items := by simp [Stack.items, shape]
      refine ⟨_, _, rfl, setNextBin_sameData q first _, rfl, fun e outside => ?_, ?_⟩
      · exact setNextBin_other _ _ fun same => outside (same ▸ listed)
      · refine ⟨rfl, ?_, ?_⟩
        · rw [setNextBin_nextInBin]
          exact inBin.congr fun e _ => setNextBin_nextInBin _ _ _ _
        · rw [setNextBin_nextBin]
          refine later.frame fun e among => setNextBin_other _ _ fun same => ?_
          exact item_not_behind sorted first listed (same ▸ among)
  · rw [if_neg top, if_neg top]
    have inner : event ∈ s.below := (List.mem_cons.mp item).resolve_left top
    have few : s.below.length ≤ n := by
      have bound := own.length_le_card
      simp only [Stack.items, List.length_cons, Fintype.card_fin] at bound
      omega
    obtain ⟨above, among, found, unlinked⟩ := unlink_walk n s.top few below own inner
    rw [found]
    refine ⟨_, _, rfl, SameData.set q above (q.event above).nextBin _, rfl, fun e outside => ?_, ?_⟩
    · exact set_other _ _ _ fun same => outside (same ▸ among)
    · refine ⟨rfl, unlinked, ?_⟩
      -- the top is the item above or not; its bin pointer stays
      have same : ((q.set above { q.event above with nextInBin := (q.event event).nextInBin }).event
          s.top).nextBin = (q.event s.top).nextBin := by
        by_cases here : s.top = above
        · rw [here, set_same]
        · rw [set_other _ _ _ here]
      rw [same]
      refine later.frame fun e mem => set_other _ _ _ fun equal => ?_
      exact item_not_behind sorted above among (equal ▸ mem)

/-- The walk of `remove` behind the stack `s`. -/
theorem remove_walk (fuel : Nat) (s : Stack (Fin n)) (enough : rest.length ≤ fuel)
    (linked : Linked q.event (some s.top) (s :: rest)) (sorted : Sorted q.keys (s :: rest))
    (mem : event ∈ contents rest) : ∃ prev curr q' newTop,
      q.findBin event fuel s.top (q.event s.top).nextBin = some (prev, some curr) ∧
      q.keys curr = q.keys event ∧ q.removeItem event curr = some (q', newTop) ∧ SameData q q' ∧
      q'.head = q.head ∧ prev ∈ contents (s :: rest) ∧
      (∀ e ∉ contents rest, q'.event e = q.event e) ∧
      Linked (q'.setNextBin prev newTop).event (some s.top)
        (s :: Stacks.remove q.keys event rest) := by
  induction rest generalizing s fuel with
  | nil => simp at mem
  | cons t rest ih =>
    obtain ⟨-, below, next, inBin, later⟩ := linked
    have whole : Linked q.event (some t.top) (t :: rest) := ⟨rfl, inBin, later⟩
    have apart : ∀ e ∈ s.items, e ∉ contents (t :: rest) := item_not_behind sorted
    cases fuel with
    | zero => simp at enough
    | succ fuel =>
      rw [next]
      simp only [findBin]
      by_cases before : q.keys t.top < q.keys event
      · rw [if_pos (Event.less_iff.mpr before)]
        have behind := sorted.tail.behind_of_key event mem before.ne
        obtain ⟨prev, curr, q', newTop, found, same, removed, data, head, among, outside,
          relinked⟩ := ih fuel t (by simpa using enough) whole sorted.tail behind
        -- the walk changes nothing of the bin it has passed
        have untouched : ∀ e ∈ s.items, (q'.setNextBin prev newTop).event e = q.event e := by
          intro e item
          have distinct : e ≠ prev := fun equal => apart e item (equal ▸ among)
          rw [setNextBin_other _ _ distinct]
          exact outside e fun inside => apart e item (List.mem_append_right _ inside)
        refine ⟨prev, curr, q', newTop, found, same, removed, data, head,
          List.mem_append_right _ among,
          fun e absent => outside e fun inside => absent (List.mem_append_right _ inside), ?_⟩
        refine Linked.behind below (fun e item => by rw [untouched e item]) ?_
        rw [untouched s.top (by simp [Stack.items]), next]
        have skipped : Stacks.remove q.keys event (t :: rest) =
            t :: Stacks.remove q.keys event rest := by
          simp [Stacks.remove, before.ne]
        rw [skipped]
        exact relinked
      · -- the keys ascend, so the walk has stopped at the bin of the event
        have same : q.keys t.top = q.keys event := by
          by_contra other
          exact before (sorted.tail.later event (sorted.tail.behind_of_key event mem other))
        have item := sorted.tail.item_of_key event mem same
        obtain ⟨q', newTop, removed, data, head, outside, relinked⟩ :=
          removeItem_linked event whole sorted.tail item
        have taken : Stacks.remove q.keys event (t :: rest) = (t.remove event).toList ++ rest := by
          simp [Stacks.remove, same]
        have fewer : ∀ e ∈ contents ((t.remove event).toList ++ rest),
          e ∈ contents (t :: rest) := by
          intro _ inside
          rw [← taken, contents_remove event (t :: rest) sorted.tail mem] at inside
          exact List.mem_of_mem_erase inside
        have items : ∀ e ∈ s.items, q'.event e = q.event e := fun e own =>
          outside e fun inside => apart e own (List.mem_append_left _ inside)
        refine ⟨s.top, t.top, q', newTop, ?_, same, removed, data, head, by simp,
          fun e absent => outside e fun inside => absent (List.mem_append_left _ inside), ?_⟩
        · rw [if_neg fun less => before (Event.less_iff.mp less)]
        · rw [taken]
          refine Linked.behind below (fun e own => by rw [setNextBin_nextInBin, items e own]) ?_
          rw [setNextBin_nextBin]
          refine relinked.frame fun e inside => setNextBin_other _ _ fun equal => ?_
          exact apart s.top (by simp [Stack.items]) (fewer s.top (equal ▸ inside))

theorem remove_linked (linked : Linked q.event q.head bins) (sorted : Sorted q.keys bins)
    (mem : event ∈ contents bins) : ∃ q', q.remove event = some q' ∧ SameData q q' ∧
      Linked q'.event q'.head (Stacks.remove q.keys event bins) := by
  cases bins with
  | nil => simp at mem
  | cons s rest =>
    have first : q.head = some s.top := linked.1
    rw [first] at linked
    simp only [remove, first]
    -- the event is in the first bin, or in the one the walk stops at
    by_cases same : q.keys s.top = q.keys event
    · rw [if_pos (Event.equal_iff.mpr same)]
      obtain ⟨_, _, removed, data, -, -, relinked⟩ :=
        removeItem_linked event linked sorted (sorted.item_of_key event mem same)
      rw [removed]
      refine ⟨_, rfl, data, ?_⟩
      simpa [Stacks.remove, same] using relinked
    · rw [if_neg fun equal => same (Event.equal_iff.mp equal)]
      have few : rest.length ≤ n := Nat.le_of_succ_le (bins_le sorted.nodup)
      have behind := sorted.behind_of_key event mem same
      obtain ⟨prev, _, q', newTop, found, level, removed, data, head, -, -, relinked⟩ :=
        remove_walk n s few linked sorted behind
      rw [found]
      simp only
      rw [if_pos (Event.equal_iff.mpr level), removed]
      refine ⟨_, rfl, data.trans (setNextBin_sameData _ _ _), ?_⟩
      have kept : (q'.setNextBin prev newTop).head = some s.top := head.trans first
      show Linked (q'.setNextBin prev newTop).event (q'.setNextBin prev newTop).head _
      rw [kept]
      simpa [Stacks.remove, same] using relinked

end EventQueue

end RasCache.Sim
