import RasCache.Foundation.BackInsertion
import RasCache.Mem.PrefetchQueue
import Mathlib.Data.List.Induction

/-!
# The duplicate filter of a queued prefetcher

Model of `Queued::alreadyInQueue` (`mem/cache/prefetch/queued.cc`), which a
queued prefetcher asks before it adds a candidate to one of its queues. As in
`RasCache.Mem.PrefetchQueue` an iterator is a position.

The search leaves its iterator one place behind the entry it found, and the
priority is raised there. `alreadyInQueue_right_iff` says on which queues that
makes no difference.
-/
namespace RasCache.Mem

open BackInsertion

/-- `PrefetchInfo`, with what `sameAddr` compares and what it does not. -/
structure PrefetchInfo (Other : Type) where
  address : Nat
  secure : Bool
  other : Other
deriving Repr, DecidableEq

def PrefetchInfo.sameAddr {Other : Type} (info pfi : PrefetchInfo Other) : Bool :=
  decide (info.address = pfi.address) && decide (info.secure = pfi.secure)

namespace Queued

variable {Other : Type}

/-- The `for` loop: whether an entry was found, and where the iterator stands. -/
def search (pfi : PrefetchInfo Other) : List (DeferredPacket (PrefetchInfo Other)) → Bool × Nat
  | [] => (false, 0)
  | entry :: rest =>
    if entry.info.sameAddr pfi then (true, 1)
    else
      let (found, it) := search pfi rest
      (found, it + 1)

section Reposition

variable {Info : Type}

/-- `std::swap(*it, *prev)`. -/
def swapEntries (queue : List (DeferredPacket Info)) (it prev : Nat) : List (DeferredPacket Info) :=
  match queue[it]?, queue[prev]? with
  | some entry, some other => (queue.set it other).set prev entry
  | _, _ => queue

/-- The `while` loop that moves the entry at `it` towards the front. -/
def reposition (queue : List (DeferredPacket Info)) (it : Nat) : Nat → List (DeferredPacket Info)
  | 0 => queue
  | prev + 1 =>
    if queue[it]?.any fun entry => exceeds entry queue prev then
      reposition (swapEntries queue it prev) prev prev
    else reposition queue it prev

/-- The queue is in the order in which it is issued. -/
def Descending (queue : List (DeferredPacket Info)) : Prop :=
  queue.Pairwise fun first second => second.priority ≤ first.priority

instance (queue : List (DeferredPacket Info)) : Decidable (Descending queue) :=
  inferInstanceAs (Decidable (queue.Pairwise fun first second => second.priority ≤ first.priority))

end Reposition

/-- `alreadyInQueue`, with the queue it leaves. -/
def alreadyInQueue (queue : List (DeferredPacket (PrefetchInfo Other))) (pfi : PrefetchInfo Other)
    (priority : Int) : Bool × List (DeferredPacket (PrefetchInfo Other)) :=
  let (found, it) := search pfi queue
  match queue[it]? with
  | none => (found, queue)
  | some entry =>
    if entry.priority < priority then
      (found, reposition (queue.set it { entry with priority }) it it)
    else (found, queue)

/-! ### The search -/

/-- `entry` is the first one for the address of the candidate. -/
structure FirstMatch (queue : List (DeferredPacket (PrefetchInfo Other)))
    (pfi : PrefetchInfo Other) (front : List (DeferredPacket (PrefetchInfo Other)))
    (entry : DeferredPacket (PrefetchInfo Other))
    (back : List (DeferredPacket (PrefetchInfo Other))) : Prop where
  split : queue = front ++ entry :: back
  before : ∀ other ∈ front, other.info.sameAddr pfi = false
  here : entry.info.sameAddr pfi = true

variable {pfi : PrefetchInfo Other} {entry : DeferredPacket (PrefetchInfo Other)}

variable {queue front back : List (DeferredPacket (PrefetchInfo Other))} {priority : Int}

theorem search_firstMatch (first : FirstMatch queue pfi front entry back) :
    search pfi queue = (true, front.length + 1) := by
  obtain ⟨rfl, before, here⟩ := first
  induction front with
  | nil => simp [search, here]
  | cons other _ ih =>
    have apart := before other List.mem_cons_self
    have rest := ih fun later mem => before later (List.mem_cons_of_mem other mem)
    simp [search, apart, rest]

theorem search_none (absent : ∀ entry ∈ queue, entry.info.sameAddr pfi = false) :
    search pfi queue = (false, queue.length) := by
  induction queue with
  | nil => rfl
  | cons entry _ ih =>
    have apart := absent entry List.mem_cons_self
    have behind := ih fun later mem => absent later (List.mem_cons_of_mem entry mem)
    simp [search, apart, behind]

theorem firstMatch_or_none (queue : List (DeferredPacket (PrefetchInfo Other)))
    (pfi : PrefetchInfo Other) : (∃ front entry back, FirstMatch queue pfi front entry back) ∨
      ∀ entry ∈ queue, entry.info.sameAddr pfi = false := by
  induction queue with
  | nil => exact .inr fun entry nothing => by cases nothing
  | cons entry rest ih =>
    by_cases here : entry.info.sameAddr pfi = true
    · have alone : ∀ other ∈ ([] : List (DeferredPacket (PrefetchInfo Other))),
          other.info.sameAddr pfi = false := fun other nothing => by cases nothing
      exact .inl ⟨[], entry, rest, rfl, alone, here⟩
    · simp only [Bool.not_eq_true] at here
      rcases ih with ⟨front, found, back, split, before, there⟩ | absent
      · refine .inl ⟨entry :: front, found, back, by rw [split]; rfl, ?_, there⟩
        exact fun other mem => (List.mem_cons.mp mem).elim (fun same => same ▸ here)
          (before other)
      · exact .inr fun other mem => (List.mem_cons.mp mem).elim (fun same => same ▸ here)
          (absent other)

/-! ### The walk to the front -/

section Walk

variable {Info : Type}

theorem reposition_stays {queue : List (DeferredPacket Info)} {it prev : Nat}
    {entry : DeferredPacket Info} (here : queue[it]? = some entry)
    (higher : ∀ j < prev, exceeds entry queue j = false) : reposition queue it prev = queue := by
  induction prev with
  | zero => rfl
  | succ prev ih =>
    have stays := higher prev (Nat.lt_succ_self prev)
    simp only [reposition, here, Option.any_some, stays, Bool.false_eq_true, if_false]
    exact ih fun j below => higher j (Nat.lt_succ_of_lt below)

variable {front : List (DeferredPacket Info)}

/-- In a sorted queue the walk puts the entry behind the last one of at least its
priority. -/
theorem reposition_eq (back : List (DeferredPacket Info)) (entry : DeferredPacket Info)
    (sorted : Descending front) : reposition (front ++ entry :: back) front.length front.length =
      insertBack (fun other => decide (other.priority < entry.priority)) entry front ++ back := by
  -- by induction from the back of the front part, which is where the walk begins
  induction front using List.reverseRecOn generalizing back with
  | nil => rfl
  | append_singleton front last ih =>
    obtain ⟨sorted', _, above⟩ := List.pairwise_append.mp sorted
    have here : ((front ++ [last]) ++ entry :: back)[front.length + 1]? = some entry := by
      simp
    have there : ((front ++ [last]) ++ entry :: back)[front.length]? = some last := by
      simp
    rw [insertBack_concat, List.length_append, List.length_singleton]
    by_cases lower : last.priority < entry.priority
    · have swapped : swapEntries ((front ++ [last]) ++ entry :: back) (front.length + 1)
          front.length = front ++ entry :: last :: back := by
        simp only [swapEntries, here, there]
        simp
      simp only [reposition, here, Option.any_some, exceeds, there, lower, decide_true, if_true,
        swapped]
      rw [ih (last :: back) sorted']
      simp
    · have stays : reposition ((front ++ [last]) ++ entry :: back) (front.length + 1)
          (front.length + 1) = (front ++ [last]) ++ entry :: back := by
        apply reposition_stays here
        intro j _
        have inside : ((front ++ [last]) ++ entry :: back)[j]? = (front ++ [last])[j]? := by
          rw [List.getElem?_append_left]
          simp
          omega
        have bound : j < (front ++ [last]).length := by simp; omega
        have mem : (front ++ [last])[j] ∈ front ++ [last] := List.getElem_mem bound
        have high : entry.priority ≤ (front ++ [last])[j].priority := by
          rcases List.mem_append.mp mem with early | same
          · have order := above _ early last (List.mem_singleton_self last)
            omega
          · rw [List.mem_singleton.mp same]
            omega
        rw [exceeds, inside, List.getElem?_eq_getElem bound, Option.any_some]
        simpa using high
      rw [stays]
      simp [lower]

/-- The raised entry finds its place without disturbing the order. -/
theorem raised_descending {rest : List (DeferredPacket Info)} {next : DeferredPacket Info}
    (sorted : Descending (front ++ next :: rest)) (lower : next.priority < priority) :
    Descending (insertBack (fun other => decide (other.priority < priority))
      { next with priority } front ++ rest) := by
  obtain ⟨frontSorted, backSorted, across⟩ := List.pairwise_append.mp sorted
  obtain ⟨below, restSorted⟩ := List.pairwise_cons.mp backSorted
  refine List.pairwise_append.mpr ⟨?_, restSorted, ?_⟩
  · apply insertBack_pairwise _ _ frontSorted
    · intro first _ stop _ stops order
      have high : priority ≤ stop.priority := by simpa using stops
      show priority ≤ first.priority
      rcases order with rfl | order <;> omega
    · intro other _ passed
      have low : other.priority < priority := by simpa using passed
      exact Int.le_of_lt low
  · intro first mem last late
    rcases mem_insertBack.mp mem with rfl | mem
    · have bound := below last late
      show last.priority ≤ priority
      omega
    · exact across first mem last (List.mem_cons_of_mem next late)

end Walk

/-! ### The filter -/

/-- The entry behind the match is the one that is raised, if there is one. -/
theorem alreadyInQueue_firstMatch (priority : Int) (sorted : Descending queue)
    (first : FirstMatch queue pfi front entry back) :
    alreadyInQueue queue pfi priority = (true,
      match back with
      | [] => queue
      | next :: rest =>
        if next.priority < priority then
          insertBack (fun other => decide (other.priority < priority)) { next with priority }
            (front ++ [entry]) ++ rest
        else queue) := by
  have searched := search_firstMatch first
  obtain ⟨rfl, _, _⟩ := first
  simp only [alreadyInQueue, searched]
  cases back with
  | nil => simp
  | cons next rest =>
    have here : (front ++ entry :: next :: rest)[front.length + 1]? = some next := by simp
    simp only [here]
    split
    next =>
      -- the walk sees the match as the last entry in front of the one that is raised
      have raised : (front ++ entry :: next :: rest).set (front.length + 1) { next with priority } =
          (front ++ [entry]) ++ { next with priority } :: rest := by
        simp
      have above : Descending (front ++ [entry]) := by
        refine List.Pairwise.sublist ?_ sorted
        simp
      have walked := reposition_eq rest { next with priority } above
      rw [List.length_append, List.length_singleton] at walked
      rw [raised, walked]
    next => rfl

theorem alreadyInQueue_absent (priority : Int)
    (absent : ∀ entry ∈ queue, entry.info.sameAddr pfi = false) :
    alreadyInQueue queue pfi priority = (false, queue) := by
  simp [alreadyInQueue, search_none absent]

/-- What the filter is for: it finds the candidate, the first entry for it gets
the higher of the two priorities, every other entry is left as it is, and the
queue stays sorted. -/
structure Filters (queue : List (DeferredPacket (PrefetchInfo Other))) (pfi : PrefetchInfo Other)
    (priority : Int) (result : Bool × List (DeferredPacket (PrefetchInfo Other))) : Prop where
  found : result.1 = true ↔ ∃ entry ∈ queue, entry.info.sameAddr pfi = true
  raised : ∀ front entry back, FirstMatch queue pfi front entry back →
    result.2.Perm (front ++ { entry with priority := max entry.priority priority } :: back)
  sorted : Descending result.2

/-- The priority of the candidate matters neither to the match nor to the entry
behind it, unless these two are the same. -/
def Harmless (priority : Int) (entry : DeferredPacket (PrefetchInfo Other)) :
    List (DeferredPacket (PrefetchInfo Other)) → Prop
  | [] => priority ≤ entry.priority
  | next :: _ => priority ≤ next.priority ∨ next = entry

theorem alreadyInQueue_found (pfi : PrefetchInfo Other) (priority : Int)
    (sorted : Descending queue) : (alreadyInQueue queue pfi priority).1 = true ↔
      ∃ entry ∈ queue, entry.info.sameAddr pfi = true := by
  rcases firstMatch_or_none queue pfi with ⟨front, entry, back, first⟩ | absent
  · rw [alreadyInQueue_firstMatch priority sorted first]
    refine iff_of_true rfl ⟨entry, ?_, first.here⟩
    simp [first.split]
  · rw [alreadyInQueue_absent priority absent]
    refine iff_of_false Bool.false_ne_true ?_
    rintro ⟨entry, mem, same⟩
    rw [absent entry mem] at same
    cases same

theorem alreadyInQueue_descending (pfi : PrefetchInfo Other) (priority : Int)
    (sorted : Descending queue) : Descending (alreadyInQueue queue pfi priority).2 := by
  rcases firstMatch_or_none queue pfi with ⟨front, entry, back, first⟩ | absent
  · rw [alreadyInQueue_firstMatch priority sorted first]
    cases back with
    | nil => exact sorted
    | cons next rest =>
      dsimp only
      split
      next lower =>
        have whole : Descending ((front ++ [entry]) ++ next :: rest) := by
          simpa [first.split] using sorted
        exact raised_descending whole lower
      next => exact sorted
  · rw [alreadyInQueue_absent priority absent]
    exact sorted

theorem max_priority_eq (high : priority ≤ entry.priority) :
    { entry with priority := max entry.priority priority } = entry := by
  rw [Int.max_eq_left high]

/-- Up to the order, only the priority of the entry behind the match changes. -/
theorem raised_perm (front rest : List (DeferredPacket (PrefetchInfo Other)))
    (entry next : DeferredPacket (PrefetchInfo Other)) (priority : Int) :
    (insertBack (fun other => decide (other.priority < priority)) { next with priority }
        (front ++ [entry]) ++ rest).Perm
      (front ++ ([entry, { next with priority }] ++ rest)) := by
  have moved := (insertBack_perm (fun other => decide (other.priority < priority))
    { next with priority } (front ++ [entry])).append_right rest
  have middle : ((front ++ [entry]) ++ { next with priority } :: rest).Perm
      ({ next with priority } :: ((front ++ [entry]) ++ rest)) := List.perm_middle
  refine moved.trans ?_
  simpa using middle.symm

/-- When the entry behind the match is raised, the match had to be the same. -/
theorem raised_perm_iff (front rest : List (DeferredPacket (PrefetchInfo Other)))
    (entry : DeferredPacket (PrefetchInfo Other)) {next : DeferredPacket (PrefetchInfo Other)}
    (lower : next.priority < priority) :
    (front ++ ([entry, { next with priority }] ++ rest)).Perm
        (front ++ ([{ entry with priority := max entry.priority priority }, next] ++ rest)) ↔
      next = entry := by
  -- what is the same on both sides cancels
  rw [List.perm_append_left_iff, List.perm_append_right_iff]
  constructor
  · intro pair
    have mem : next ∈ [entry, { next with priority }] :=
      pair.mem_iff.mpr (List.mem_cons_of_mem _ (List.mem_singleton_self next))
    rcases List.mem_cons.mp mem with same | changed
    · exact same
    · have unchanged := congrArg DeferredPacket.priority (List.mem_singleton.mp changed)
      dsimp only at unchanged
      omega
  · rintro rfl
    rw [Int.max_eq_right (Int.le_of_lt lower)]
    exact List.Perm.swap _ _ []

/-- The right entry is raised exactly when the raise shows nowhere, or would show
on two entries that are the same. -/
theorem alreadyInQueue_raised_iff (priority : Int) (sorted : Descending queue)
    (first : FirstMatch queue pfi front entry back) :
    (alreadyInQueue queue pfi priority).2.Perm
        (front ++ { entry with priority := max entry.priority priority } :: back) ↔
      Harmless priority entry back := by
  rw [alreadyInQueue_firstMatch priority sorted first]
  have split := first.split
  cases back with
  | nil =>
    subst split
    simp only [Harmless]
    constructor
    · intro same
      have last := ((List.perm_append_left_iff front).mp same).mem_iff.mp
        (List.mem_singleton_self entry)
      have high := congrArg DeferredPacket.priority (List.mem_singleton.mp last)
      dsimp only at high
      omega
    · intro high
      rw [max_priority_eq high]
  | cons next rest =>
    simp only [Harmless]
    by_cases lower : next.priority < priority
    · simp only [lower, if_true]
      have inPlace := raised_perm front rest entry next priority
      have pair := raised_perm_iff front rest entry lower
      constructor
      · intro same
        exact .inr (pair.mp (inPlace.symm.trans same))
      · rintro (high | same)
        · omega
        · exact inPlace.trans (pair.mpr same)
    · -- nothing is raised, and nothing had to be: the match is no lower than the next
      simp only [lower, if_false]
      have behind : next.priority ≤ entry.priority := by
        have order := sorted
        rw [split, Descending, List.pairwise_append] at order
        exact (List.pairwise_cons.mp order.2.1).1 next List.mem_cons_self
      rw [max_priority_eq (by omega), split]
      exact iff_of_true (List.Perm.refl _) (.inl (by omega))

/-- The filter is right exactly on the queues where the entry behind the match,
and the match itself, have at least the priority of the candidate. -/
theorem alreadyInQueue_right_iff (queue : List (DeferredPacket (PrefetchInfo Other)))
    (pfi : PrefetchInfo Other) (priority : Int) (sorted : Descending queue) :
    Filters queue pfi priority (alreadyInQueue queue pfi priority) ↔
      ∀ front entry back, FirstMatch queue pfi front entry back → Harmless priority entry back := by
  constructor
  · intro right front entry back first
    exact (alreadyInQueue_raised_iff priority sorted first).mp (right.raised front entry back first)
  · intro harmless
    refine ⟨alreadyInQueue_found pfi priority sorted, ?_,
      alreadyInQueue_descending pfi priority sorted⟩
    intro front entry back first
    exact (alreadyInQueue_raised_iff priority sorted first).mpr (harmless front entry back first)

/-- A packet for the line at `address`. -/
def packetFor (address : Nat) (priority : Int) : DeferredPacket (PrefetchInfo Unit) :=
  ⟨⟨address, false, ()⟩, priority⟩

theorem alreadyInQueue_right_iff_two : Descending [packetFor 0 3, packetFor 64 1] ∧
      (Filters [packetFor 0 3, packetFor 64 1] (packetFor 64 2).info 2
          (alreadyInQueue [packetFor 0 3, packetFor 64 1] (packetFor 64 2).info 2) ↔
        ∀ front entry back,
          FirstMatch [packetFor 0 3, packetFor 64 1] (packetFor 64 2).info front entry back →
            Harmless 2 entry back) :=
  ⟨by decide, alreadyInQueue_right_iff _ _ _ (by decide)⟩

/-- The candidate is at the head of the queue, and the entry behind it gets its
priority and its place. At the end of the queue no priority is raised. -/
theorem alreadyInQueue_raises_next : Descending [packetFor 0 3, packetFor 64 1] ∧
      alreadyInQueue [packetFor 0 3, packetFor 64 1] (packetFor 0 5).info 5 =
        (true, [packetFor 64 5, packetFor 0 3]) ∧
      ¬ Filters [packetFor 0 3, packetFor 64 1] (packetFor 0 5).info 5
        (alreadyInQueue [packetFor 0 3, packetFor 64 1] (packetFor 0 5).info 5) ∧
      alreadyInQueue [packetFor 0 3, packetFor 64 1] (packetFor 64 2).info 2 =
        (true, [packetFor 0 3, packetFor 64 1]) := by
  refine ⟨by decide, by decide, ?_, by decide⟩
  intro right
  have first : FirstMatch [packetFor 0 3, packetFor 64 1] (packetFor 0 5).info [] (packetFor 0 3)
      [packetFor 64 1] := ⟨rfl, (fun other nothing => by cases nothing), rfl⟩
  have harmless := (alreadyInQueue_raised_iff 5 (by decide) first).mp (right.raised _ _ _ first)
  rcases harmless with high | same
  · exact absurd high (by decide)
  · exact absurd same (by decide)

end Queued

end RasCache.Mem
