import Mathlib.Tactic.Lemma
import Mathlib.Tactic.TypeStar

/-!
# Systems and what can be seen of them

A system takes steps, and a step may show an event. `Simulation C A R`: whatever `C` does from a
state that `R` relates to one of `A`, the system `A` can do so that the same events are seen. Then
`A` can show every sequence of events that `C` can show (`Simulation.trace`).
-/

namespace Lib

/-- The states a system can start in, and its steps with the event that each of them shows. -/
structure System (S E : Type*) where
  init : S → Prop
  step : S → Option E → S → Prop

namespace System

variable {S T E : Type*} {C : System S E} {A : System T E} {R : S → T → Prop}

/-- A run from `s` and the events it shows. -/
inductive Run (C : System S E) (s : S) : List E → S → Prop
  | refl : Run C s [] s
  | tail {es s' o s''} (run : Run C s es s') (step : C.step s' o s'') : Run C s (es ++ o.toList) s''

/-- The events of some run from the start. -/
def Trace (C : System S E) (es : List E) : Prop := ∃ s s', C.init s ∧ C.Run s es s'

/-- One step. -/
lemma Run.single {s s' : S} {o : Option E} (step : C.step s o s') : C.Run s o.toList s' :=
  .tail .refl step

/-- One run after another. -/
lemma Run.trans {s s' s'' : S} {es es' : List E} (run : C.Run s es s') (run' : C.Run s' es' s'') :
    C.Run s (es ++ es') s'' := by
  induction run' with
  | refl =>
    rw [List.append_nil]
    exact run
  | tail _ step ih =>
    rw [← List.append_assoc]
    exact .tail ih step

/-- `A` can follow `C`. -/
structure Simulation (C : System S E) (A : System T E) (R : S → T → Prop) : Prop where
  init : ∀ {s}, C.init s → ∃ t, A.init t ∧ R s t
  step : ∀ {s t o s'}, R s t → C.step s o s' → ∃ t', A.Run t o.toList t' ∧ R s' t'

/-- Whole runs can be followed. -/
theorem Simulation.run (sim : Simulation C A R) {s s' : S} {t : T} {es : List E} (rel : R s t)
    (run : C.Run s es s') : ∃ t', A.Run t es t' ∧ R s' t' := by
  induction run with
  | refl => exact ⟨t, .refl, rel⟩
  | tail _ st ih =>
    obtain ⟨t₁, run₁, rel₁⟩ := ih
    obtain ⟨t₂, run₂, rel₂⟩ := sim.step rel₁ st
    exact ⟨t₂, run₁.trans run₂, rel₂⟩

/-- What can be seen of `C` can be seen of `A`. -/
theorem Simulation.trace (sim : Simulation C A R) {es : List E} (tr : C.Trace es) : A.Trace es := by
  obtain ⟨s, s', start, run⟩ := tr
  obtain ⟨t, start', rel⟩ := sim.init start
  obtain ⟨t', run', -⟩ := sim.run rel run
  exact ⟨t, t', start', run'⟩

end System

end Lib
