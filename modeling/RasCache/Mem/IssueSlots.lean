import RasCache.Mem.SendEvent
import Mathlib.Algebra.Group.Int.Defs
import Mathlib.Algebra.Group.Nat.Defs

/-!
# The issue slots of the history buffer

Model of the constructor of `SHB` and of `SHB::nextPrefetchReadyTime`
(`mem/cache/prefetch/shb.cc` and `shb.hh`) in both issue modes. The random mode
keeps the tick of its next slot and moves it on, one random interval after the
other, until it lies behind the current tick. The numbers the generator hands out
are a sequence, and the state counts how many of them have been used; the loop has
fuel, and a failed assertion, a division by zero and a loop that has not ended are
`none`.

`issueSlots_iff` says which of the accepted configurations keep the schedule.
-/
namespace RasCache.Mem

/-- The parameters of the prefetcher. The intervals are signed in the
configuration. -/
structure IssueParams where
  shbIssue : Nat
  issue_interval : Int
  max_issue_interval : Int
  clockPeriod : Nat
  period_pos : 0 < clockPeriod

/-- `readyTime`, and how many random numbers have been drawn. -/
structure IssueState where
  readyTime : Nat := 0
  drawn : Nat := 0
deriving Repr, DecidableEq

/-- A call of `nextPrefetchReadyTime`. -/
structure IssueCall where
  tick : Nat
  fuel : Nat
deriving Repr, DecidableEq

namespace IssueParams

variable (cfg : IssueParams)

/-- A number of cycles has 64 bits and no sign. -/
def issueInterval : Nat := (cfg.issue_interval % 2 ^ 64).toNat

def maxIssueInterval : Nat :=
  let interval := if cfg.shbIssue = 1 then cfg.issue_interval else cfg.max_issue_interval
  (interval % 2 ^ 64).toNat

/-- The constructor does not panic. -/
def Accepted : Prop := ¬ (cfg.shbIssue = 2 ∧ cfg.issueInterval ≥ cfg.maxIssueInterval)

instance : Decidable cfg.Accepted := inferInstanceAs (Decidable (¬ _))

/-- What `random<unsigned>(issueInterval, maxIssueInterval)` can return. -/
def Drawn (randCycle : Nat) : Prop :=
  cfg.issueInterval % 2 ^ 32 ≤ randCycle ∧ randCycle ≤ cfg.maxIssueInterval % 2 ^ 32

instance (randCycle : Nat) : Decidable (cfg.Drawn randCycle) :=
  inferInstanceAs (Decidable (_ ∧ _))

variable (random : Nat → Nat)

/-- One turn of the loop. -/
def addInterval (s : IssueState) : IssueState where
  readyTime := (s.readyTime + random s.drawn * cfg.clockPeriod) % 2 ^ 64
  drawn := s.drawn + 1

/-- The loop of the random mode. -/
def catchUp (tick : Nat) : Nat → IssueState → Option IssueState
  | 0, s => if s.readyTime ≤ tick then none else some s
  | fuel + 1, s =>
    if s.readyTime ≤ tick then catchUp tick fuel (cfg.addInterval random s) else some s

/-- The returned tick, and the prefetcher after the call. -/
def nextPrefetchReadyTime (s : IssueState) (call : IssueCall) : Option (Nat × IssueState) :=
  if cfg.shbIssue = 1 then
    let issueTick := cfg.issueInterval * cfg.clockPeriod % 2 ^ 64
    if issueTick = 0 then none
    else some ((call.tick - call.tick % issueTick + issueTick) % 2 ^ 64, s)
  else if cfg.shbIssue ≠ 2 then none
  else (cfg.catchUp random call.tick call.fuel s).map fun s => (s.readyTime, s)

def step (s : IssueState) (call : IssueCall) : Option IssueState :=
  (cfg.nextPrefetchReadyTime random s call).map Prod.snd

/-- The slots the random numbers lay out, from tick zero on. -/
def slot : Nat → Nat
  | 0 => 0
  | n + 1 => slot n + random n * cfg.clockPeriod

/-- The most cycles between two slots: an `unsigned` where they are drawn. -/
def longest : Nat :=
  if cfg.shbIssue = 2 then cfg.maxIssueInterval % 2 ^ 32 else cfg.maxIssueInterval

/-- The tick is far enough from the end of time. -/
def Representable (tick : Nat) : Prop := tick + cfg.longest * cfg.clockPeriod < 2 ^ 64

instance (tick : Nat) : Decidable (cfg.Representable tick) := inferInstanceAs (Decidable (_ < _))

/-- The least multiple of the interval behind `tick`. -/
def IsNextMultiple (tick next : Nat) : Prop :=
  cfg.issueInterval * cfg.clockPeriod ∣ next ∧ tick < next ∧
    ∀ other, cfg.issueInterval * cfg.clockPeriod ∣ other → tick < other → next ≤ other

/-- A random slot: the first one behind `tick` that is not before the one at hand,
and the one at hand stays until its tick has come. -/
structure IsNextSlot (s : IssueState) (tick next : Nat) (t : IssueState) : Prop where
  before : s.readyTime = cfg.slot random s.drawn
  after : next = cfg.slot random t.drawn
  skipped : ∀ n, s.drawn ≤ n → n < t.drawn → cfg.slot random n ≤ tick
  kept : tick < s.readyTime → next = s.readyTime ∧ t = s
  overdue : s.readyTime ≤ tick → next ≤ tick + cfg.maxIssueInterval * cfg.clockPeriod
  again : ∀ call : IssueCall, call.tick < next →
    cfg.nextPrefetchReadyTime random t call = some (next, t)
  spaced : ∀ n,
    cfg.slot random n + cfg.issueInterval * cfg.clockPeriod ≤ cfg.slot random (n + 1) ∧
    cfg.slot random (n + 1) ≤ cfg.slot random n + cfg.maxIssueInterval * cfg.clockPeriod

/-- A call at `tick` returns the tick the schedule asks for. -/
def Answers (s : IssueState) (tick : Nat) : Prop :=
  ∃ fuel next t, cfg.nextPrefetchReadyTime random s ⟨tick, fuel⟩ = some (next, t) ∧ tick < next ∧
    (cfg.shbIssue = 1 → cfg.IsNextMultiple tick next ∧ t = s) ∧
    (cfg.shbIssue = 2 → cfg.IsNextSlot random s tick next t)

/-- The first slot comes before the end of time, and whatever is drawn and
whenever the prefetcher was called before, every call is answered. -/
def KeepsSchedule : Prop :=
  cfg.Representable 0 ∧ ∀ random : Nat → Nat, (cfg.shbIssue = 2 → ∀ n, cfg.Drawn (random n)) →
    ∀ (calls : List IssueCall) (s : IssueState), (∀ call ∈ calls, cfg.Representable call.tick) →
      Runs.run (cfg.step random) {} calls = some s →
      ∀ tick, cfg.Representable tick → cfg.Answers random s tick

/-- The constructor does not panic, and both intervals are an `int`. -/
structure InRange : Prop where
  accepted : cfg.Accepted
  interval : -2 ^ 31 ≤ cfg.issue_interval ∧ cfg.issue_interval < 2 ^ 31
  maximum : -2 ^ 31 ≤ cfg.max_issue_interval ∧ cfg.max_issue_interval < 2 ^ 31

/-! ### The loop -/

variable {cfg random}

/-- The slot at hand is one of those that are laid out. -/
def OnSlot (cfg : IssueParams) (random : Nat → Nat) (s : IssueState) : Prop :=
  s.readyTime = cfg.slot random s.drawn

variable {s : IssueState} {tick : Nat}

/-- An interval added to an overdue slot does not overflow. -/
theorem OnSlot.addInterval (here : cfg.OnSlot random s) (tick : Nat)
    (most : ∀ n, random n ≤ cfg.longest) (room : cfg.Representable tick)
    (overdue : s.readyTime ≤ tick) : cfg.OnSlot random (cfg.addInterval random s) ∧
      (cfg.addInterval random s).readyTime = s.readyTime + random s.drawn * cfg.clockPeriod := by
  have step := Nat.mul_le_mul_right cfg.clockPeriod (most s.drawn)
  have small : s.readyTime + random s.drawn * cfg.clockPeriod < 2 ^ 64 := by
    unfold Representable at room
    omega
  have exact : (cfg.addInterval random s).readyTime =
      s.readyTime + random s.drawn * cfg.clockPeriod := Nat.mod_eq_of_lt small
  refine ⟨?_, exact⟩
  rw [OnSlot, exact, here]
  rfl

/-- The loop ends, and what it returns is the first slot behind `tick`. -/
theorem catchUp_ends (least : ∀ n, 1 ≤ random n) (most : ∀ n, random n ≤ cfg.longest)
    (room : cfg.Representable tick) (fuel : Nat) (s : IssueState)
    (here : cfg.OnSlot random s) (enough : tick < s.readyTime + fuel) :
    ∃ t, cfg.catchUp random tick fuel s = some t ∧ cfg.OnSlot random t ∧ tick < t.readyTime ∧
      (∀ n, s.drawn ≤ n → n < t.drawn → cfg.slot random n ≤ tick) ∧ (tick < s.readyTime → t = s) ∧
      (s.readyTime ≤ tick → t.readyTime ≤ tick + cfg.longest * cfg.clockPeriod) := by
  -- an overdue slot moves by a cycle at least, so the fuel covers the distance to the tick
  induction fuel generalizing s with
  | zero =>
    have later : ¬ s.readyTime ≤ tick := by omega
    refine ⟨s, if_neg later, here, by omega, fun n first last => ?_, fun _ => rfl,
      fun overdue => ?_⟩
    · omega
    · exact absurd overdue later
  | succ _ ih =>
    simp only [catchUp]
    split
    next overdue =>
      obtain ⟨next, exact⟩ := here.addInterval tick most room overdue
      have forward : cfg.clockPeriod ≤ random s.drawn * cfg.clockPeriod :=
        Nat.le_mul_of_pos_left _ (least s.drawn)
      have bound := Nat.mul_le_mul_right cfg.clockPeriod (most s.drawn)
      have positive := cfg.period_pos
      obtain ⟨t, ends, on, behind, skipped, kept, late⟩ :=
        ih (cfg.addInterval random s) next (by omega)
      refine ⟨t, ends, on, behind, fun n first last => ?_, fun early => ?_, fun _ => ?_⟩
      · -- the slot just left is overdue, the later ones are those of the rest of the loop
        rcases Nat.eq_or_lt_of_le first with rfl | first
        · rw [← here]
          exact overdue
        · exact skipped n first last
      · omega
      · -- the last interval starts from a slot that is overdue
        by_cases more : (cfg.addInterval random s).readyTime ≤ tick
        · exact late more
        · rw [kept (by omega)]
          omega
    next later =>
      refine ⟨s, rfl, here, by omega, fun n first last => ?_, fun _ => rfl, fun overdue => ?_⟩
      · omega
      · exact absurd overdue later

theorem catchUp_early (fuel : Nat) (early : tick < s.readyTime) :
    cfg.catchUp random tick fuel s = some s := by
  have later : ¬ s.readyTime ≤ tick := by omega
  cases fuel with
  | zero => exact if_neg later
  | succ => exact if_neg later

variable {t : IssueState}

/-- However much fuel the loop has, whatever it returns is a slot. -/
theorem OnSlot.catchUp (here : cfg.OnSlot random s) (tick fuel : Nat)
    (most : ∀ n, random n ≤ cfg.longest) (room : cfg.Representable tick)
    (ends : cfg.catchUp random tick fuel s = some t) : cfg.OnSlot random t := by
  induction fuel generalizing s with
  | zero =>
    simp only [IssueParams.catchUp] at ends
    split at ends
    · cases ends
    · cases ends
      exact here
  | succ _ ih =>
    simp only [IssueParams.catchUp] at ends
    split at ends
    next overdue => exact ih (here.addInterval tick most room overdue).1 ends
    next =>
      cases ends
      exact here

theorem OnSlot.step (here : cfg.OnSlot random s) (call : IssueCall)
    (most : ∀ n, random n ≤ cfg.longest) (room : cfg.Representable call.tick)
    (mode : cfg.shbIssue = 2) (taken : cfg.step random s call = some t) : cfg.OnSlot random t := by
  simp only [IssueParams.step, nextPrefetchReadyTime, mode, if_false, ne_eq,
    not_true_eq_false, Nat.reduceEqDiff, Option.map_map] at taken
  obtain ⟨_, ends, same⟩ := Option.map_eq_some_iff.mp taken
  cases same
  exact here.catchUp call.tick call.fuel most room ends

/-! ### The schedule -/

/-- Random numbers that can be drawn lay slots out at the distances asked for. -/
theorem slot_spaced (least : ∀ n, cfg.issueInterval ≤ random n)
    (most : ∀ n, random n ≤ cfg.maxIssueInterval) (n : Nat) :
    cfg.slot random n + cfg.issueInterval * cfg.clockPeriod ≤ cfg.slot random (n + 1) ∧
      cfg.slot random (n + 1) ≤ cfg.slot random n + cfg.maxIssueInterval * cfg.clockPeriod := by
  have low := Nat.mul_le_mul_right cfg.clockPeriod (least n)
  have high := Nat.mul_le_mul_right cfg.clockPeriod (most n)
  simp only [slot]
  omega

theorem InRange.exact (range : cfg.InRange) (positive : 0 < cfg.issue_interval) :
    cfg.issueInterval % 2 ^ 32 = cfg.issueInterval ∧ 0 < cfg.issueInterval := by
  obtain ⟨_, _⟩ := range.interval
  unfold issueInterval
  omega

/-- A negative interval is drawn too short. -/
theorem InRange.negative (range : cfg.InRange) (mode : cfg.shbIssue = 2)
    (negative : cfg.issue_interval < 0) : cfg.Drawn (cfg.issueInterval % 2 ^ 32) ∧
      cfg.issueInterval % 2 ^ 32 < cfg.issueInterval := by
  obtain ⟨_, _⟩ := range.interval
  obtain ⟨_, _⟩ := range.maximum
  -- a maximum above it is negative as well, so that the order is the one of the lower halves
  have below : cfg.issueInterval < cfg.maxIssueInterval := by
    have accepted := range.accepted
    simp only [Accepted, mode, true_and] at accepted
    omega
  simp only [Drawn, issueInterval, maxIssueInterval, mode] at below ⊢
  omega

theorem longest_constant (mode : cfg.shbIssue = 1) : cfg.longest = cfg.issueInterval := by
  simp [longest, maxIssueInterval, issueInterval, mode]

theorem longest_random (mode : cfg.shbIssue = 2) :
    cfg.longest = cfg.maxIssueInterval % 2 ^ 32 ∧ cfg.longest ≤ cfg.maxIssueInterval := by
  simp [longest, mode, Nat.mod_le]

theorem answers_constant (mode : cfg.shbIssue = 1) (positive : 0 < cfg.issueInterval)
    (s : IssueState) (room : cfg.Representable tick) : cfg.Answers random s tick := by
  have issue_pos := Nat.mul_pos positive cfg.period_pos
  unfold Representable at room
  rw [longest_constant mode] at room
  -- neither the interval nor the tick behind it overflows
  have whole : cfg.issueInterval * cfg.clockPeriod % 2 ^ 64 =
      cfg.issueInterval * cfg.clockPeriod := Nat.mod_eq_of_lt (by omega)
  generalize interval : cfg.issueInterval * cfg.clockPeriod = issueTick at *
  have split := Nat.div_add_mod tick issueTick
  have rest := Nat.mod_lt tick issue_pos
  have floor : tick - tick % issueTick = issueTick * (tick / issueTick) := by omega
  have small : tick - tick % issueTick + issueTick < 2 ^ 64 := by omega
  refine ⟨0, tick - tick % issueTick + issueTick, s, ?_, by omega, fun _ => ⟨?_, rfl⟩,
    fun other => ?_⟩
  · simp only [nextPrefetchReadyTime, mode, if_true, interval, whole]
    rw [if_neg (by omega), Nat.mod_eq_of_lt small]
  · unfold IsNextMultiple
    rw [interval]
    refine ⟨Nat.dvd_add (Nat.dvd_sub_mod tick) (Nat.dvd_refl issueTick), by omega, ?_⟩
    rintro other ⟨turns, rfl⟩ behind
    -- a multiple behind the tick is one interval further at least
    have further : tick / issueTick < turns := Nat.div_lt_of_lt_mul behind
    have next := Nat.mul_le_mul_left issueTick further
    rw [Nat.mul_succ] at next
    omega
  · omega

theorem answers_random (range : cfg.InRange) (mode : cfg.shbIssue = 2)
    (positive : 0 < cfg.issue_interval) (drawn : ∀ n, cfg.Drawn (random n))
    (here : cfg.OnSlot random s) (room : cfg.Representable tick) : cfg.Answers random s tick := by
  obtain ⟨low, forward⟩ := range.exact positive
  obtain ⟨longest, most⟩ := longest_random mode
  have least : ∀ n, cfg.issueInterval ≤ random n := fun n => low ▸ (drawn n).1
  have short : ∀ n, random n ≤ cfg.longest := fun n => longest ▸ (drawn n).2
  obtain ⟨t, ends, on, behind, skipped, kept, late⟩ :=
    catchUp_ends (fun n => Nat.le_trans forward (least n)) short room (tick + 1) s here (by omega)
  refine ⟨tick + 1, t.readyTime, t, ?_, behind, fun other => ?_, fun _ => ?_⟩
  · simp [nextPrefetchReadyTime, mode, ends]
  · omega
  · constructor
    · exact here
    · exact on
    · exact skipped
    · intro early
      rw [kept early]
      exact ⟨rfl, rfl⟩
    · intro overdue
      have bound := Nat.mul_le_mul_right cfg.clockPeriod most
      exact Nat.le_trans (late overdue) (by omega)
    · -- a call before the slot returns it again and draws nothing
      intro call early
      simp [nextPrefetchReadyTime, mode, catchUp_early call.fuel early]
    · exact slot_spaced least fun n => Nat.le_trans (short n) most

/-- Accepted configurations that keep the schedule. -/
theorem InRange.keepsSchedule (range : cfg.InRange) (time : cfg.Representable 0)
    (good : cfg.shbIssue = 1 ∧ cfg.issue_interval ≠ 0 ∨ cfg.shbIssue = 2 ∧ 0 < cfg.issue_interval) :
    cfg.KeepsSchedule := by
  refine ⟨time, fun random drawn calls s rooms ran _ room => ?_⟩
  rcases good with ⟨mode, nonzero⟩ | ⟨mode, positive⟩
  · have positive : 0 < cfg.issueInterval := by
      obtain ⟨_, _⟩ := range.interval
      unfold issueInterval
      omega
    exact answers_constant mode positive s room
  · have most : ∀ n, random n ≤ cfg.longest := fun n => (longest_random mode).1 ▸ (drawn mode n).2
    -- every call leaves the prefetcher on one of the slots
    have keeps : ∀ (s : IssueState) (call : IssueCall) (t : IssueState), cfg.OnSlot random s →
        cfg.Representable call.tick → cfg.step random s call = some t →
        cfg.OnSlot random t :=
      fun s call t here room taken => here.step call most room mode taken
    have here : cfg.OnSlot random s :=
      Runs.run_invariant keeps {} s calls rfl (Runs.along_of_forall _ calls rooms) ran
    exact answers_random range mode positive (drawn mode) here room

/-! ### The configurations that do not -/

/-- Intervals of length zero do not move the slot, and the loop does not end. -/
theorem catchUp_zero (fuel : Nat) (s : IssueState) (start : s.readyTime = 0) :
    cfg.catchUp (fun _ => 0) 0 fuel s = none := by
  induction fuel generalizing s with
  | zero => simp [catchUp, start]
  | succ _ ih =>
    simp only [catchUp, start, Nat.le_refl, if_true]
    exact ih _ (by simp [addInterval, start])

theorem not_answers_zero (zero : cfg.issueInterval = 0) (fuel : Nat) :
    cfg.nextPrefetchReadyTime (fun _ => 0) {} ⟨0, fuel⟩ = none := by
  unfold nextPrefetchReadyTime
  split
  · simp [zero]
  · split
    · rfl
    · rw [catchUp_zero fuel {} rfl, Option.map_none]

theorem KeepsSchedule.first (keeps : cfg.KeepsSchedule) (random : Nat → Nat)
    (drawn : cfg.shbIssue = 2 → ∀ n, cfg.Drawn (random n)) : cfg.Answers random {} 0 :=
  keeps.2 random drawn [] {} (fun _ mem => by cases mem) rfl 0 keeps.1

/-- An accepted configuration keeps the schedule exactly when its mode is one of the
two, its interval is not zero, nor negative where it is drawn, and the longest
interval ends before the end of time. -/
theorem issueSlots_iff (range : cfg.InRange) : cfg.KeepsSchedule ↔ cfg.Representable 0 ∧
    (cfg.shbIssue = 1 ∧ cfg.issue_interval ≠ 0 ∨ cfg.shbIssue = 2 ∧ 0 < cfg.issue_interval) := by
  refine ⟨fun keeps => ⟨keeps.1, ?_⟩, fun good => range.keepsSchedule good.1 good.2⟩
  have nonzero : cfg.issue_interval ≠ 0 := by
    intro zero
    have zeroed : cfg.issueInterval = 0 := by simp [issueInterval, zero]
    obtain ⟨fuel, _, _, ret, -⟩ := keeps.first (fun _ => 0) fun _ n => by simp [Drawn, zeroed]
    rw [not_answers_zero zeroed fuel] at ret
    cases ret
  by_cases constant : cfg.shbIssue = 1
  · exact .inl ⟨constant, nonzero⟩
  by_cases drawn : cfg.shbIssue = 2
  · refine .inr ⟨drawn, Int.not_le.mp fun notPositive => ?_⟩
    obtain ⟨possible, short⟩ := range.negative drawn (by omega)
    obtain ⟨_, _, _, _, _, _, slot⟩ := keeps.first _ fun _ _ => possible
    -- the first two slots are closer than the interval
    have apart := ((slot drawn).spaced 0).1
    have closer := Nat.mul_lt_mul_of_pos_right short cfg.period_pos
    simp only [IssueParams.slot] at apart
    omega
  · obtain ⟨_, _, _, ret, -⟩ := keeps.first (fun _ => 0) fun mode => absurd mode drawn
    rw [nextPrefetchReadyTime, if_neg constant, if_pos drawn] at ret
    cases ret

/-- The parameters at a clock of two gigahertz. -/
def atTwoGigahertz (shbIssue : Nat) (issue_interval max_issue_interval : Int) : IssueParams :=
  ⟨shbIssue, issue_interval, max_issue_interval, 500, by decide⟩

/-- The default parameters in both modes, and the constant mode with a maximum that it
does not read. -/
theorem issueSlots_iff_default : (atTwoGigahertz 1 5 10).KeepsSchedule ∧
    (atTwoGigahertz 2 5 10).KeepsSchedule ∧ (atTwoGigahertz 1 5 (-1)).KeepsSchedule := by
  refine ⟨?_, ?_, ?_⟩ <;>
    exact (issueSlots_iff ⟨by decide, by decide, by decide⟩).mpr ⟨by decide, by decide⟩

/-- The constructor accepts an interval of zero and a mode it does not know. At
tick zero the constant mode then divides by zero, the random mode may never end,
and the unknown mode fails an assertion. It also accepts negative intervals, which
are cut to 32 bits where they are drawn. -/
theorem issueSlots_accepts_zero : ((atTwoGigahertz 1 0 10).Accepted ∧
      ∀ random fuel, (atTwoGigahertz 1 0 10).nextPrefetchReadyTime random {} ⟨0, fuel⟩ = none) ∧
    ((atTwoGigahertz 2 0 10).Accepted ∧ (atTwoGigahertz 2 0 10).Drawn 0 ∧
      ∀ fuel, (atTwoGigahertz 2 0 10).nextPrefetchReadyTime (fun _ => 0) {} ⟨0, fuel⟩ = none) ∧
    ((atTwoGigahertz 3 5 10).Accepted ∧
      ∀ random fuel, (atTwoGigahertz 3 5 10).nextPrefetchReadyTime random {} ⟨0, fuel⟩ = none) ∧
    ((atTwoGigahertz 2 (-10) (-5)).Accepted ∧ (atTwoGigahertz 2 (-10) (-5)).Drawn (2 ^ 32 - 10) ∧
      2 ^ 32 - 10 < (atTwoGigahertz 2 (-10) (-5)).issueInterval) := by
  refine ⟨⟨by decide, fun random fuel => rfl⟩, ⟨by decide, by decide, fun fuel => ?_⟩,
    ⟨by decide, fun random fuel => rfl⟩, by decide, by decide, by decide⟩
  exact not_answers_zero rfl fuel

end IssueParams

end RasCache.Mem
