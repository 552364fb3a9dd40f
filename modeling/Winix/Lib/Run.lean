/-
**Runs of a partial step function.**

A system is a step function `step : σ → ε → Option σ`: the event `ε` happens in the state `σ`, and
`none` means that the machine does not come back from it (it panics, faults or loops).

* `runFrom step s events` is the state after the events, in order;
* `Meets step ok s events` says that every step of the run is taken in a state that satisfies the
  side condition `ok`;
* `runFrom_invariant` is the one induction over runs. As it speaks about every list of events, it speaks
  about every state on the way (a prefix of a run is a run);
* `logged` records, beside the state, what an observer sees at each step;
* `logged_simulates`: the runs of a system that simulates another show the same.
-/

import Mathlib.Logic.Basic

namespace Lib

variable {σ ε ω : Type*}

/-- The state after the events, if the machine comes back from all of them. -/
def runFrom (step : σ → ε → Option σ) : σ → List ε → Option σ
  | s, [] => some s
  | s, event :: events => (step s event).bind fun s' => runFrom step s' events

/-- Every step of the run is taken in a state that satisfies the side condition. -/
def Meets (step : σ → ε → Option σ) (ok : σ → ε → Prop) : σ → List ε → Prop
  | _, [] => True
  | s, event :: events => ok s event ∧
      match step s event with
      | none => True
      | some s' => Meets step ok s' events

instance Meets.decidable (step : σ → ε → Option σ) (ok : σ → ε → Prop)
    [∀ s event, Decidable (ok s event)] : ∀ s events, Decidable (Meets step ok s events)
  | _, [] => isTrue trivial
  | s, event :: events =>
    match found : step s event with
    | none => decidable_of_iff (ok s event) (by simp only [Meets, found, and_true])
    | some s' =>
      have := Meets.decidable step ok s' events
      decidable_of_iff (ok s event ∧ Meets step ok s' events) (by simp only [Meets, found])

variable {step : σ → ε → Option σ} {ok : σ → ε → Prop}

@[simp] theorem runFrom_nil (s : σ) : runFrom step s [] = some s := rfl

/-- A run is a step and a run. -/
theorem runFrom_cons {s s' : σ} {event : ε} {events : List ε} :
    runFrom step s (event :: events) = some s' ↔
      ∃ middle, step s event = some middle ∧ runFrom step middle events = some s' := by
  simp only [runFrom, Option.bind_eq_some_iff]

/-- The condition may be weakened. -/
theorem Meets.mono {ok' : σ → ε → Prop} (weaker : ∀ s event, ok s event → ok' s event) :
    ∀ {events : List ε} {s : σ}, Meets step ok s events → Meets step ok' s events
  | [], _, _ => trivial
  | event :: events, s, meets => by
      refine ⟨weaker s event meets.1, ?_⟩
      have rest := meets.2
      split at rest
      · trivial
      · exact Meets.mono weaker rest

theorem Meets.of_forall (holds : ∀ s event, ok s event) :
    ∀ (events : List ε) (s : σ), Meets step ok s events
  | [], _ => trivial
  | event :: events, s => by
      refine ⟨holds s event, ?_⟩
      split
      · trivial
      · exact Meets.of_forall holds events _

/-- A run can be cut anywhere. -/
theorem runFrom_append {s s' : σ} {first second : List ε} :
    runFrom step s (first ++ second) = some s' ↔
      ∃ middle, runFrom step s first = some middle ∧ runFrom step middle second = some s' := by
  induction first generalizing s with
  | nil => simp
  | cons event first ih =>
    simp only [List.cons_append, runFrom_cons, ih]
    constructor
    · rintro ⟨m, hm, m', hm', rest⟩
      exact ⟨m', ⟨m, hm, hm'⟩, rest⟩
    · rintro ⟨m', ⟨m, hm, hm'⟩, rest⟩
      exact ⟨m, hm, m', hm', rest⟩

/-- **Invariants over runs.** What every admissible step keeps, every admissible run keeps. -/
theorem runFrom_invariant (inv : σ → Prop)
    (keep : ∀ s event s', inv s → ok s event → step s event = some s' → inv s') :
    ∀ (events : List ε) {s s' : σ}, inv s → Meets step ok s events →
      runFrom step s events = some s' → inv s'
  | [], s, s', start, _, ran => by
      cases ran
      exact start
  | event :: events, s, s', start, meets, ran => by
      obtain ⟨middle, stepped, ran⟩ := runFrom_cons.mp ran
      have rest := meets.2
      rw [stepped] at rest
      exact runFrom_invariant inv keep events (keep s event middle start meets.1 stepped) rest ran

/-- The step function together with the log of an observer. -/
def logged (step : σ → ε → Option σ) (observe : σ → ε → List ω) :
    σ × List ω → ε → Option (σ × List ω) :=
  fun (s, log) event => (step s event).map fun s' => (s', log ++ observe s event)

theorem logged_eq_some {observe : σ → ε → List ω} {before after : σ × List ω} {event : ε} :
    logged step observe before event = some after ↔
      step before.1 event = some after.1 ∧ after.2 = before.2 ++ observe before.1 event := by
  obtain ⟨s, log⟩ := before
  obtain ⟨s', log'⟩ := after
  simp only [logged, Option.map_eq_some_iff, Prod.mk.injEq]
  constructor
  · rintro ⟨t, stepped, rfl, rfl⟩
    exact ⟨stepped, rfl⟩
  · rintro ⟨stepped, rfl⟩
    exact ⟨s', stepped, rfl, rfl⟩

/-- The end of a run that has been computed. -/
theorem exists_of_any {end? : Option σ} {P : σ → Prop} [DecidablePred P]
    (checked : end?.any (fun s => decide (P s)) = true) : ∃ s, end? = some s ∧ P s := by
  obtain ⟨s, same, holds⟩ := (Option.any_eq_true _ _).mp checked
  exact ⟨s, same, of_decide_eq_true holds⟩

/-! ### Simulation -/

section Simulation

variable {τ : Type*}

/-- **Runs of a concrete system that simulates an abstract one.** The side condition is on the
abstract system; that the concrete one comes back from every step is part of the conclusion. -/
theorem logged_simulates {abstract : τ → ε → Option τ} {concrete : σ → ε → Option σ}
    {ok : τ → ε → Prop} {seen : τ → ε → List ω} {shown : σ → ε → List ω} (related : σ → τ → Prop)
    (matching : ∀ s t event, related s t → ok t event → ∃ s' t', concrete s event = some s' ∧
      abstract t event = some t' ∧ shown s event = seen t event ∧ related s' t') :
    ∀ (events : List ε) {s : σ} {t : τ} (log : List ω), related s t → Meets abstract ok t events →
      ∃ s' t' log', runFrom (logged concrete shown) (s, log) events = some (s', log') ∧
        runFrom (logged abstract seen) (t, log) events = some (t', log') ∧ related s' t'
  | [], s, t, log, start, _ => ⟨s, t, log, rfl, rfl, start⟩
  | event :: events, s, t, log, start, meets => by
      obtain ⟨s', t', stepped, stepped', same, rel⟩ := matching s t event start meets.1
      have rest := meets.2
      rw [stepped'] at rest
      obtain ⟨s'', t'', log', ran, ran', final⟩ :=
        logged_simulates related matching events (log ++ seen t event) rel rest
      refine ⟨s'', t'', log', runFrom_cons.mpr ⟨_, logged_eq_some.mpr ⟨stepped, ?_⟩, ran⟩,
        runFrom_cons.mpr ⟨_, logged_eq_some.mpr ⟨stepped', rfl⟩, ran'⟩, final⟩
      rw [same]

end Simulation

end Lib
