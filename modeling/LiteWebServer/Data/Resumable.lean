import Mathlib.Data.List.Chain
import Mathlib.Data.List.Infix

namespace LiteWebServer.Data

/-! Consumers of a growing input.  A consumer maps a state and the pending input
to a new state and the number of items it took.  It is resumable when stopping
at any point and going on later with what was left gives the same state and the
same total; `drive` is then insensitive to how the input was cut. -/

/-- `Valid` is an invariant of the states the consumer meets. -/
structure Resumable (Valid : σ → Prop) (run : σ → List α → σ × Nat) : Prop where
  keeps : ∀ {state input}, Valid state → Valid (run state input).1
  idle : ∀ {state}, Valid state → run state [] = (state, 0)
  bounded : ∀ {state input}, Valid state → (run state input).2 ≤ input.length
  resumes : ∀ {state input more}, Valid state →
    run state (input ++ more) =
      ((run (run state input).1 (input.drop (run state input).2 ++ more)).1,
        (run state input).2 + (run (run state input).1 (input.drop (run state input).2 ++ more)).2)

/-- The driver that sees longer and longer versions of one input and keeps the
number of items taken so far as its offset. -/
def drive (run : σ → List α → σ × Nat) : σ → Nat → List (List α) → σ × Nat
  | state, taken, [] => (state, taken)
  | state, taken, input :: later =>
      drive run (run state (input.drop taken)).1 (taken + (run state (input.drop taken)).2) later

variable {Valid : σ → Prop} {run : σ → List α → σ × Nat}

/-- One call on a longer input, from where the shorter one was left, ends where
a single call on the longer input ends. -/
theorem Resumable.step (resumable : Resumable Valid run) {state : σ} (valid : Valid state)
    {seen input : List α} (grows : seen <+: input) :
    ((run (run state seen).1 (input.drop (run state seen).2)).1,
      (run state seen).2 + (run (run state seen).1 (input.drop (run state seen).2)).2) =
      run state input := by
  obtain ⟨more, rfl⟩ := grows
  rw [List.drop_append_of_le_length (resumable.bounded valid)]
  exact (resumable.resumes valid).symm

theorem Resumable.drive_from (resumable : Resumable Valid run) {state : σ} (valid : Valid state)
    (inputs : List (List α)) {seen : List α} (chain : (seen :: inputs).IsChain (· <+: ·)) :
    drive run (run state seen).1 (run state seen).2 inputs =
      run state ((seen :: inputs).getLast (List.cons_ne_nil _ _)) := by
  induction inputs generalizing seen with
  | nil => rfl
  | cons input later ih =>
      obtain ⟨grows, rest⟩ := List.isChain_cons_cons.mp chain
      have next := resumable.step valid grows
      rw [drive, List.getLast_cons (List.cons_ne_nil _ _), ← ih rest]
      have state := congrArg Prod.fst next
      have taken := congrArg Prod.snd next
      dsimp only at state taken
      rw [state, taken]

/-- Cut independence: whatever the increasing prefixes, the driver ends as one
call on the whole input does. -/
theorem Resumable.drive_eq (resumable : Resumable Valid run) {state : σ} (valid : Valid state)
    {inputs : List (List α)} (chain : inputs.IsChain (· <+: ·)) {whole : List α}
    (last : inputs.getLast? = some whole) : drive run state 0 inputs = run state whole := by
  cases inputs with
  | nil => simp at last
  | cons input later =>
      have start : (([] : List α) :: input :: later).IsChain (· <+: ·) :=
        List.isChain_cons_cons.mpr ⟨List.nil_prefix, chain⟩
      have driven := resumable.drive_from valid _ start
      rw [resumable.idle valid] at driven
      rw [driven, List.getLast_cons (List.cons_ne_nil _ _)]
      rw [List.getLast?_eq_some_getLast (List.cons_ne_nil _ _), Option.some.injEq] at last
      rw [last]

theorem prefix_of_chain {inputs : List (List α)} (chain : inputs.IsChain (· <+: ·))
    {input whole : List α} (last : inputs.getLast? = some whole) (member : input ∈ inputs) :
    input <+: whole := by
  obtain ⟨earlier, rfl⟩ := List.getLast?_eq_some_iff.mp last
  rcases List.mem_append.mp member with before | final
  · exact (List.pairwise_append.mp (List.isChain_iff_pairwise.mp chain)).2.2 input before whole
      List.mem_cons_self
  · rw [List.mem_singleton.mp final]

end LiteWebServer.Data
