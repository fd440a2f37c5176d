import Mathlib.Data.List.Forall2

/-!
# Runs of partial transition systems

A system is a partial step function: `step s e = none` when the event `e` is
not possible in `s`, or when an assertion of the modelled code fails there.
`run` applies a list of events, `Along` states a condition on every step of a
run, and the two invariant rules lift one-step facts to whole runs.
-/
namespace Runs

variable {State Event : Type*}

def run (step : State → Event → Option State) : State → List Event → Option State
  | s, [] => some s
  | s, e :: es => (step s e).bind fun t => run step t es

/-- Every step taken by the run from `s` meets `ok`. A step that fails ends the
run, so nothing is asked of the events behind it. -/
def Along (step : State → Event → Option State) (ok : State → Event → Prop) :
    State → List Event → Prop
  | _, [] => True
  | s, e :: es => ok s e ∧ ∀ t, step s e = some t → Along step ok t es

variable {step : State → Event → Option State}

@[simp] theorem run_nil (s : State) : run step s [] = some s := rfl

theorem run_cons_iff {s t : State} {e : Event} {es : List Event} :
    run step s (e :: es) = some t ↔ ∃ u, step s e = some u ∧ run step u es = some t := by
  simp [run, Option.bind_eq_some_iff]

/-- A run on fixed events is evaluated. -/
theorem exists_run {P : State → Prop} [DecidablePred P] {s : State} {es : List Event}
    (holds : (run step s es).any (fun t => P t) = true) : ∃ t, run step s es = some t ∧ P t := by
  obtain ⟨t, ran, holds⟩ := (Option.any_eq_true _ _).mp holds
  exact ⟨t, ran, of_decide_eq_true holds⟩

variable {ok good : State → Event → Prop} {Inv : State → Prop}

theorem along_cons {s t : State} {e : Event} {es : List Event} (taken : step s e = some t)
    (here : ok s e) (rest : Along step ok t es) : Along step ok s (e :: es) := by
  refine ⟨here, fun u other => ?_⟩
  rw [taken] at other
  cases other
  exact rest

/-- A run can be taken up to an event that does not meet the condition. -/
theorem not_along_of_run (s t : State) (es : List Event) (e : Event) (ran : run step s es = some t)
    (fails : ¬ ok t e) : ¬ Along step ok s (es ++ [e]) := by
  induction es generalizing s with
  | nil =>
    cases ran
    exact fun along => fails along.1
  | cons first rest ih =>
    obtain ⟨u, taken, ran⟩ := run_cons_iff.mp ran
    exact fun along => ih u ran (along.2 u taken)

/-- Nothing is asked of the steps. -/
theorem along_trivial (s : State) (es : List Event) : Along step (fun _ _ => True) s es := by
  induction es generalizing s with
  | nil => trivial
  | cons _ _ ih => exact ⟨trivial, fun t _ => ih t⟩

/-- A condition on the events alone. -/
theorem along_of_forall {P : Event → Prop} (s : State) (es : List Event) (all : ∀ e ∈ es, P e) :
    Along step (fun _ e => P e) s es := by
  induction es generalizing s with
  | nil => trivial
  | cons e _ ih =>
    refine ⟨all e List.mem_cons_self, fun t _ => ?_⟩
    exact ih t fun later mem => all later (List.mem_cons_of_mem e mem)

/-- A condition on steps that holds wherever the invariant does holds along
every run that starts in the invariant. -/
theorem along_of_invariant (keeps : ∀ s e t, Inv s → ok s e → step s e = some t → Inv t)
    (implies : ∀ s e, Inv s → ok s e → good s e) (s : State) (es : List Event) (start : Inv s)
    (along : Along step ok s es) : Along step good s es := by
  induction es generalizing s with
  | nil => trivial
  | cons e _ ih =>
    obtain ⟨here, rest⟩ := along
    refine ⟨implies s e start here, fun t taken => ?_⟩
    exact ih t (keeps s e t start here taken) (rest t taken)

theorem run_invariant (keeps : ∀ s e t, Inv s → ok s e → step s e = some t → Inv t) (s t : State)
    (es : List Event) (start : Inv s) (along : Along step ok s es) (ran : run step s es = some t) :
    Inv t := by
  induction es generalizing s with
  | nil =>
    cases ran
    exact start
  | cons e es ih =>
    obtain ⟨u, taken, ran⟩ := run_cons_iff.mp ran
    exact ih u (keeps s e u start along.1 taken) (along.2 u taken) ran

/-- Where no step of the invariant fails, every run can be taken to its end. -/
theorem run_total (total : ∀ s e, Inv s → ∃ t, step s e = some t ∧ Inv t) (s : State)
    (es : List Event) (start : Inv s) : ∃ t, run step s es = some t ∧ Inv t := by
  induction es generalizing s with
  | nil => exact ⟨s, rfl, start⟩
  | cons e es ih =>
    obtain ⟨u, taken, kept⟩ := total s e start
    obtain ⟨t, ran, reached⟩ := ih u kept
    exact ⟨t, run_cons_iff.mpr ⟨u, taken, ran⟩, reached⟩

/-- `Along` looks at each step on its own. -/
theorem along_congr (same : ∀ s e, ok s e ↔ good s e) (s : State) (es : List Event) :
    Along step ok s es ↔ Along step good s es := by
  induction es generalizing s with
  | nil => exact Iff.rfl
  | cons _ _ ih =>
    simp only [Along, same]
    exact and_congr_right fun _ => forall_congr' fun t => imp_congr_right fun _ => ih t

/-- Where `ok` says exactly which steps keep `Inv`, a run reaches only states in
`Inv` exactly when all its steps are `ok`. `Wf` is what every step keeps. -/
theorem along_keeps_iff {Wf : State → Prop} (wf : ∀ s e t, Wf s → step s e = some t → Wf t)
    (exactly : ∀ s e, Wf s → Inv s → ((∀ t, step s e = some t → Inv t) ↔ ok s e)) (s : State)
    (es : List Event) (formed : Wf s) (start : Inv s) :
    Along step (fun s e => ∀ t, step s e = some t → Inv t) s es ↔ Along step ok s es := by
  induction es generalizing s with
  | nil => exact Iff.rfl
  | cons e _ ih =>
    have here := exactly s e formed start
    constructor
    · rintro ⟨kept, rest⟩
      refine ⟨here.mp kept, fun t taken => ?_⟩
      exact (ih t (wf s e t formed taken) (kept t taken)).mp (rest t taken)
    · rintro ⟨ok, rest⟩
      have kept := here.mpr ok
      refine ⟨kept, fun t taken => ?_⟩
      exact (ih t (wf s e t formed taken) (kept t taken)).mpr (rest t taken)

variable {State' : Type*}

/-- Two runs, of one system or of two, over events that agree position by
position: related states stay related, and one run stops exactly when the other
does. -/
theorem run_related {Event' : Type*} {step' : State' → Event' → Option State'}
    {Rel : State → State' → Prop} {Same : Event → Event' → Prop}
    (keeps : ∀ s t e f, Rel s t → Same e f → Option.Rel Rel (step s e) (step' t f)) (s : State)
    (t : State') (es : List Event) (fs : List Event') (agree : List.Forall₂ Same es fs)
    (related : Rel s t) : Option.Rel Rel (run step s es) (run step' t fs) := by
  induction agree generalizing s t with
  | nil => exact .some related
  | @cons e f es fs same _ ih =>
    have both := keeps s t e f related same
    simp only [run]
    -- the two runs stop together or go on related
    cases first : step s e with
    | none =>
      rw [first] at both
      cases second : step' t f with
      | none => exact .none
      | some => rw [second] at both; cases both
    | some u =>
      rw [first] at both
      cases second : step' t f with
      | none => rw [second] at both; cases both
      | some v =>
        rw [second] at both
        cases both with
        | some both => exact ih u v both

/-- Related results stay related under functions that keep the relation. -/
theorem rel_map {α β γ δ : Type*} {Rel : α → β → Prop} {Rel' : γ → δ → Prop} {f : α → γ} {g : β → δ}
    (keeps : ∀ a b, Rel a b → Rel' (f a) (g b)) (x : Option α) (y : Option β)
    (related : Option.Rel Rel x y) : Option.Rel Rel' (x.map f) (y.map g) := by
  cases related with
  | none => exact .none
  | some related => exact .some (keeps _ _ related)

/-- A system that follows another one step by step follows it in every run. -/
theorem run_simulates {step' : State' → Event → Option State'} {Rel : State → State' → Prop}
    (keeps : ∀ s t e, Rel s t → Option.Rel Rel (step s e) (step' t e)) (s : State) (t : State')
    (es : List Event) (related : Rel s t) : Option.Rel Rel (run step s es) (run step' t es) := by
  have agree : List.Forall₂ Eq es es := List.forall₂_same.mpr fun _ _ => rfl
  refine run_related (fun s t e f related same => ?_) s t es es agree related
  exact same ▸ keeps s t e related

end Runs
