import Mathlib.Algebra.Group.Nat.Defs
import Mathlib.Data.List.Induction

/-!
# Load-linked and store-conditional

Model of the lock list of a block (`CacheBlk::Lock`, `trackLoadLocked`,
`clearLoadLocks`, `checkWrite` and `invalidate` in `mem/cache/cache_blk.hh`). A
lock is a byte range with the context that loaded it; loads, writes and store
conditionals remove locks by overlap, each with its own filter on the context.
What a lock that is still there stands for is read off the calls since its load:
nothing overlapped the range but writes of its own context.
-/
namespace RasCache.Mem

/-- What the locks read of a request. The bytes it touches lie in the address
space and are at least one, so the last one is found without a wrap. -/
structure LockRequest where
  contextId : Nat
  paddr : Nat
  size : Nat
  nonempty : 0 < size
  fits : paddr + size ≤ 2 ^ 64
deriving DecidableEq

variable {req : LockRequest} {e : LockEvent} {history : List LockEvent}

namespace LockRequest

def highAddr (req : LockRequest) : Nat := req.paddr + req.size - 1

/-- The range of `other` lies in the one of `req`. -/
def Covers (req other : LockRequest) : Prop :=
  req.paddr ≤ other.paddr ∧ other.highAddr ≤ req.highAddr

/-- The two ranges share a byte. -/
def Overlaps (req other : LockRequest) : Prop :=
  other.paddr ≤ req.highAddr ∧ req.paddr ≤ other.highAddr

theorem paddr_le_highAddr (req : LockRequest) : req.paddr ≤ req.highAddr := by
  have bytes := req.nonempty
  unfold highAddr
  omega

/-- Two ranges that cover a third one share its bytes. -/
theorem Covers.overlaps {first second : LockRequest} (left : first.Covers req)
    (right : second.Covers req) : first.Overlaps second := by
  have bytes := req.paddr_le_highAddr
  obtain ⟨_, _⟩ := left
  obtain ⟨_, _⟩ := right
  exact ⟨by omega, by omega⟩

end LockRequest

structure Lock where
  contextId : Nat
  lowAddr : Nat
  highAddr : Nat
deriving Repr, DecidableEq

namespace Lock

def ofRequest (req : LockRequest) : Lock where
  contextId := req.contextId
  lowAddr := req.paddr
  highAddr := req.highAddr

/-- `Lock::matches`. -/
def matchesReq (lock : Lock) (req : LockRequest) : Bool :=
  decide (lock.contextId = req.contextId) && decide (lock.lowAddr ≤ req.paddr) &&
    decide (req.highAddr ≤ lock.highAddr)

def intersects (lock : Lock) (req : LockRequest) : Bool :=
  decide (req.paddr ≤ lock.highAddr) && decide (lock.lowAddr ≤ req.highAddr)

theorem ofRequest_intersects_iff (held req : LockRequest) :
    (ofRequest held).intersects req = true ↔ held.Overlaps req := by
  simp only [intersects, Bool.and_eq_true, decide_eq_true_eq]
  exact Iff.rfl

end Lock

/-! ### The calls -/

namespace LockList

/-- A load-linked drops every lock it overlaps, also those of its own context. -/
def trackLoadLocked (lockList : List Lock) (req : LockRequest) : List Lock :=
  .ofRequest req :: lockList.filter fun l => !l.intersects req

def clearLoadLocks (lockList : List Lock) (req : LockRequest) : List Lock :=
  lockList.filter fun l => !(l.intersects req && decide (l.contextId ≠ req.contextId))

/-- `checkWrite`, with the locks it leaves. The result is whether the write is
performed. -/
def checkWrite (isLLSC : Bool) (lockList : List Lock) (req : LockRequest) : Bool × List Lock :=
  if !isLLSC && lockList.isEmpty then (true, lockList)
  else if isLLSC then
    -- the first matching lock is used up
    (lockList.any fun l => l.matchesReq req,
      clearLoadLocks (lockList.eraseP fun l => l.matchesReq req) req)
  else (true, clearLoadLocks lockList req)

end LockList

/-- What is done to a block. -/
inductive LockEvent where
  | loadLocked (req : LockRequest)
  | write (req : LockRequest)
  | storeCond (req : LockRequest)
  | invalidate
deriving DecidableEq

namespace LockList

def step (lockList : List Lock) : LockEvent → List Lock
  | .loadLocked req => trackLoadLocked lockList req
  | .write req => (checkWrite false lockList req).2
  | .storeCond req => (checkWrite true lockList req).2
  | .invalidate => []

/-- The locks of a block after what was done to it, the oldest event first. -/
def after (history : List LockEvent) : List Lock := history.foldl step []

end LockList

/-! ### What a lock stands for -/

/-- The event leaves the lock alone. -/
def Lock.Survives (lock : Lock) : LockEvent → Prop
  | .loadLocked req => lock.intersects req = false
  | .write req | .storeCond req =>
    lock.intersects req = true → lock.contextId = req.contextId
  | .invalidate => False

/-- The lock was set by a load of the history, and survived what came since. -/
def Lock.Stands (lock : Lock) (history : List LockEvent) : Prop :=
  ∃ earlier req later, history = earlier ++ .loadLocked req :: later ∧ lock = .ofRequest req ∧
    ∀ e ∈ later, lock.Survives e

theorem Lock.Stands.snoc {lock : Lock} (stands : lock.Stands history) (survives : lock.Survives e) :
    lock.Stands (history ++ [e]) := by
  obtain ⟨earlier, req, later, rfl, set, since⟩ := stands
  exact ⟨earlier, req, later ++ [e], by simp, set,
    List.forall_mem_append.mpr ⟨since, List.forall_mem_singleton.mpr survives⟩⟩

namespace LockList

variable {lockList : List Lock} {lock : Lock}

theorem mem_clearLoadLocks (mem : lock ∈ clearLoadLocks lockList req) :
    lock ∈ lockList ∧ (lock.intersects req = true → lock.contextId = req.contextId) := by
  obtain ⟨there, kept⟩ := List.mem_filter.mp mem
  refine ⟨there, fun overlaps => ?_⟩
  by_contra other
  simp [overlaps, other] at kept

theorem mem_checkWrite {isLLSC : Bool} (mem : lock ∈ (checkWrite isLLSC lockList req).2) :
    lock ∈ lockList ∧ (lock.intersects req = true → lock.contextId = req.contextId) := by
  unfold checkWrite at mem
  split at mem
  next idle =>
    -- there is no lock to keep
    simp only [Bool.and_eq_true, List.isEmpty_iff] at idle
    simp [idle.2] at mem
  next =>
    split at mem
    next =>
      obtain ⟨there, kept⟩ := mem_clearLoadLocks mem
      exact ⟨List.mem_of_mem_eraseP there, kept⟩
    next => exact mem_clearLoadLocks mem

/-- A lock after an event was there before and survived, or the event set it. -/
theorem mem_step (mem : lock ∈ step lockList e) :
    (lock ∈ lockList ∧ lock.Survives e) ∨ ∃ req, e = .loadLocked req ∧ lock = .ofRequest req := by
  cases e with
  | loadLocked req =>
    rcases List.mem_cons.mp mem with new | old
    · exact .inr ⟨req, rfl, new⟩
    · obtain ⟨there, apart⟩ := List.mem_filter.mp old
      have apart : lock.intersects req = false := by simpa using apart
      exact .inl ⟨there, apart⟩
  | write => exact .inl (mem_checkWrite mem)
  | storeCond => exact .inl (mem_checkWrite mem)
  | invalidate => cases mem

/-- Every lock stands for a load that nothing has interfered with since. -/
theorem after_stands (mem : lock ∈ after history) : lock.Stands history := by
  -- the newest event is looked at first: the lock is new, or it stood before it
  induction history using List.reverseRecOn with
  | nil => cases mem
  | append_singleton earlier _ ih =>
    rw [after, List.foldl_append] at mem
    rcases mem_step mem with ⟨there, survives⟩ | ⟨req, rfl, set⟩
    · exact (ih there).snoc survives
    · exact ⟨earlier, req, [], rfl, set, fun event none => by cases none⟩

end LockList

/-- The event takes the line away from the context that holds `held`: the block
is invalidated, or another context writes to the range. -/
def LockEvent.Breaks (held : LockRequest) : LockEvent → Prop
  | .loadLocked _ => False
  | .write req | .storeCond req => req.contextId ≠ held.contextId ∧ held.Overlaps req
  | .invalidate => True

theorem Lock.Survives.not_breaks {held : LockRequest}
    (survives : (Lock.ofRequest held).Survives e) : ¬ e.Breaks held := by
  cases e with
  | loadLocked => exact not_false
  | write req | storeCond req =>
    rintro ⟨other, overlaps⟩
    exact other (survives ((Lock.ofRequest_intersects_iff held req).mpr overlaps)).symm
  | invalidate => exact survives.elim

/-- Since the most recent load-linked of its context that covers the request,
nothing has taken the line away. -/
def Unbroken (history : List LockEvent) (req : LockRequest) : Prop :=
  ∃ earlier held later, history = earlier ++ .loadLocked held :: later ∧
    held.contextId = req.contextId ∧ held.Covers req ∧
    (∀ other, .loadLocked other ∈ later → other.contextId = req.contextId → ¬ other.Covers req) ∧
    ∀ e ∈ later, ¬ e.Breaks held

theorem storeCond_matches (lockList : List Lock) (req : LockRequest) :
    (LockList.checkWrite true lockList req).1 = true ↔
      ∃ lock ∈ lockList, lock.contextId = req.contextId ∧ lock.lowAddr ≤ req.paddr ∧
        req.highAddr ≤ lock.highAddr := by
  simp only [LockList.checkWrite, Bool.not_true, Bool.false_and, Bool.false_eq_true, if_false,
    if_true, List.any_eq_true, Lock.matchesReq, Bool.and_eq_true, decide_eq_true_eq, and_assoc]

/-- A store conditional succeeds exactly when a lock of its context covers it, and
only while the load-linked it relies on is unbroken. -/
theorem storeCond_succeeds (history : List LockEvent) (req : LockRequest) :
    ((LockList.checkWrite true (LockList.after history) req).1 = true ↔
      ∃ lock ∈ LockList.after history, lock.contextId = req.contextId ∧
        lock.lowAddr ≤ req.paddr ∧ req.highAddr ≤ lock.highAddr) ∧
    ((LockList.checkWrite true (LockList.after history) req).1 = true → Unbroken history req) := by
  refine ⟨storeCond_matches _ req, fun success => ?_⟩
  obtain ⟨lock, mem, context, low, high⟩ := (storeCond_matches _ req).mp success
  obtain ⟨earlier, held, later, split, rfl, since⟩ := LockList.after_stands mem
  have covers : held.Covers req := ⟨low, high⟩
  refine ⟨earlier, held, later, split, context, covers, ?_, ?_⟩
  · intro other mem _ again
    -- a later load that covers the request, too, would have dropped the lock
    have survives := since (.loadLocked other) mem
    have overlaps := (Lock.ofRequest_intersects_iff held other).mpr (covers.overlaps again)
    rw [Lock.Survives, overlaps] at survives
    cases survives
  · intro e mem
    exact (since e mem).not_breaks

end RasCache.Mem
