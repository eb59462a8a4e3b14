import Mathlib.Data.List.Induction
import Mathlib.Data.Option.Basic

namespace LiteWebServer.Data

/-! Labelled transition systems.  What the parties of a system did is the list of
labels of a run, so histories need no place in the states. -/

structure System (σ α : Type) where
  start : σ → Prop
  step : σ → α → σ → Prop

namespace System

/-- The labels lead from some start to the state. -/
inductive Runs (system : System σ α) : List α → σ → Prop where
  | start {state} (started : system.start state) : Runs system [] state
  | step {labels before label after} (run : Runs system labels before)
      (stepped : system.step before label after) : Runs system (labels ++ [label]) after

variable {system : System σ α}

/-- The invariant rule, for properties of the state and the labels that led to it. -/
theorem Runs.invariant {Inv : List α → σ → Prop}
    (initial : ∀ {state}, system.start state → Inv [] state)
    (keeps : ∀ {labels before label after}, Inv labels before → system.step before label after →
      Inv (labels ++ [label]) after)
    {labels : List α} {state : σ} (run : system.Runs labels state) : Inv labels state := by
  induction run with
  | start started => exact initial started
  | step _ stepped ih => exact keeps ih stepped

/-- A label of a run is that of a step between two states of it. -/
theorem Runs.cut {label : α} {earlier later : List α} {state : σ}
    (run : system.Runs (earlier ++ label :: later) state) :
    ∃ before after, system.Runs earlier before ∧ system.step before label after := by
  induction later using List.reverseRecOn generalizing state with
  | nil =>
      generalize shape : earlier ++ [label] = labels at run
      cases run with
      | start => simp at shape
      | step run stepped =>
          obtain ⟨rfl, same⟩ := List.append_inj' shape rfl
          cases same
          exact ⟨_, _, run, stepped⟩
  | append_singleton later last ih =>
      rw [← List.cons_append, ← List.append_assoc] at run
      generalize shape : earlier ++ label :: later ++ [last] = labels at run
      cases run with
      | start => simp at shape
      | step run stepped =>
          obtain ⟨rfl, -⟩ := List.append_inj' shape rfl
          exact ih run

/-- The abstract system does every step of the concrete one, under the same label. -/
structure Simulation (concrete : System σ α) (abstract : System τ α) (Rel : σ → τ → Prop) :
    Prop where
  start : ∀ {state}, concrete.start state → ∃ image, abstract.start image ∧ Rel state image
  step : ∀ {before label after image}, Rel before image → concrete.step before label after →
    ∃ next, abstract.step image label next ∧ Rel after next

theorem Simulation.runs {concrete : System σ α} {abstract : System τ α} {Rel : σ → τ → Prop}
    (simulation : Simulation concrete abstract Rel) {labels : List α} {state : σ}
    (run : concrete.Runs labels state) : ∃ image, abstract.Runs labels image ∧ Rel state image := by
  induction run with
  | start started =>
      obtain ⟨image, begun, related⟩ := simulation.start started
      exact ⟨image, .start begun, related⟩
  | step _ stepped ih =>
      obtain ⟨image, run, related⟩ := ih
      obtain ⟨next, moved, related⟩ := simulation.step related stepped
      exact ⟨next, .step run moved, related⟩

/-- The system of a partial step function, whose inputs are the choices of the
environment and whose outputs are the labels. -/
def ofNext (start : σ → Prop) (next : σ → ι → Option (σ × α)) : System σ α where
  start := start
  step before label after := ∃ input, next before input = some (after, label)

/-- Where some inputs lead, with the labels, if every one of them is possible. -/
def follow (next : σ → ι → Option (σ × α)) : σ → List ι → Option (σ × List α)
  | state, [] => some (state, [])
  | state, input :: inputs => do
      let (state, label) ← next state input
      let (state, labels) ← follow next state inputs
      return (state, label :: labels)

theorem follow_cons {next : σ → ι → Option (σ × α)} {state last : σ} {input : ι} {inputs : List ι}
    {labels : List α} :
    follow next state (input :: inputs) = some (last, labels) ↔
      ∃ after label rest, next state input = some (after, label) ∧
        follow next after inputs = some (last, rest) ∧ labels = label :: rest := by
  constructor
  · intro followed
    obtain ⟨⟨after, label⟩, first, followed⟩ := Option.bind_eq_some_iff.mp followed
    obtain ⟨⟨last, rest⟩, later, shape⟩ := Option.bind_eq_some_iff.mp followed
    cases shape
    exact ⟨after, label, rest, first, later, rfl⟩
  · intro parts
    obtain ⟨after, label, rest, first, later, rfl⟩ := parts
    simp [follow, first, later, bind, pure]

theorem Runs.follow {start : σ → Prop} {next : σ → ι → Option (σ × α)} {state after : σ}
    {inputs : List ι} {labels earlier : List α} (run : (ofNext start next).Runs earlier state)
    (followed : follow next state inputs = some (after, labels)) :
    (ofNext start next).Runs (earlier ++ labels) after := by
  induction inputs generalizing earlier state labels with
  | nil =>
      cases followed
      rwa [List.append_nil]
  | cons input inputs ih =>
      obtain ⟨between, label, later, first, rest, rfl⟩ := follow_cons.mp followed
      have further := ih (run.step ⟨input, first⟩) rest
      rwa [List.append_assoc] at further

/-- Where each step keeps a property exactly under some condition on the state and the
input, a run keeps it all along exactly when each of its steps meets the condition. -/
theorem follow_keeps_iff {next : σ → ι → Option (σ × α)} {Inv Good : σ → Prop} {Meets : σ → ι → Prop}
    {inputs : List ι}
    (keeps : ∀ {state input after label}, input ∈ inputs → Inv state → Good state →
      next state input = some (after, label) → Inv after ∧ (Good after ↔ Meets state input))
    {state : σ} (inv : Inv state) (good : Good state) :
    (∀ earlier after labels, earlier <+: inputs → follow next state earlier = some (after, labels) →
      Good after) ↔
      ∀ earlier input before labels, earlier ++ [input] <+: inputs →
        follow next state earlier = some (before, labels) → (next before input).isSome →
          Meets before input := by
  induction inputs generalizing state with
  | nil =>
      refine iff_of_true (fun earlier after labels inside ran => ?_)
        (fun earlier input before labels inside => ?_)
      · obtain rfl := List.prefix_nil.mp inside
        cases ran
        exact good
      · simp at inside
  | cons first later ih =>
      have onwards {state : σ} := @ih (fun member => keeps (List.mem_cons_of_mem _ member)) state
      have here {after : σ} {label : α} (stepped : next state first = some (after, label)) :=
        keeps List.mem_cons_self inv good stepped
      constructor
      · intro all earlier input before labels inside ran enabled
        cases earlier with
        | nil =>
            cases ran
            obtain ⟨rfl, -⟩ := List.cons_prefix_cons.mp inside
            obtain ⟨⟨after, label⟩, stepped⟩ := Option.isSome_iff_exists.mp enabled
            have goodAfter := all [input] after [label] (List.prefix_append [input] later)
              (follow_cons.mpr ⟨after, label, [], stepped, rfl, rfl⟩)
            exact (here stepped).2.mp goodAfter
        | cons head earlier =>
            obtain ⟨rfl, behind⟩ := List.cons_prefix_cons.mp inside
            obtain ⟨after, label, rest, stepped, onward, rfl⟩ := follow_cons.mp ran
            have goodAfter := all [head] after [label] (List.prefix_append [head] later)
              (follow_cons.mpr ⟨after, label, [], stepped, rfl, rfl⟩)
            refine (onwards (here stepped).1 goodAfter).mp
              (fun front last labels inner reached => ?_) earlier input before rest behind onward enabled
            exact all (head :: front) last (label :: labels) (List.cons_prefix_cons.mpr ⟨rfl, inner⟩)
              (follow_cons.mpr ⟨after, label, labels, stepped, reached, rfl⟩)
      · intro meets earlier last labels inside ran
        cases earlier with
        | nil =>
            cases ran
            exact good
        | cons head earlier =>
            obtain ⟨rfl, behind⟩ := List.cons_prefix_cons.mp inside
            obtain ⟨after, label, rest, stepped, onward, rfl⟩ := follow_cons.mp ran
            have goodAfter := (here stepped).2.mpr
              (meets [] head state [] (List.prefix_append [head] later) rfl (by rw [stepped]; rfl))
            refine (onwards (here stepped).1 goodAfter).mpr
              (fun front input before labels inner reached enabled => ?_) earlier last rest behind onward
            exact meets (head :: front) input before (label :: labels)
              (List.cons_prefix_cons.mpr ⟨rfl, inner⟩)
              (follow_cons.mpr ⟨after, label, labels, stepped, reached, rfl⟩) enabled

end System

end LiteWebServer.Data
