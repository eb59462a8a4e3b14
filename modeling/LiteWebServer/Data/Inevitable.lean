import LiteWebServer.Data.Transition
import Mathlib.Logic.Hydra

namespace LiteWebServer.Data

/-! Goals that a system comes to under every scheduler that goes on making some turns. -/

namespace System

/-- Where steps aside lead on the way to the goal. -/
inductive Amid (next : σ → ι → Option (σ × α)) (Aside : σ → ι → Prop) (Goal : List α → σ → Prop)
    (labels : List α) (state : σ) : List α → σ → Prop where
  | here : Amid next Aside Goal labels state labels state
  | step {labels' between input after label} (amid : Amid next Aside Goal labels state labels' between)
      (open_ : ¬ Goal labels' between) (aside : Aside between input)
      (stepped : next between input = some (after, label)) :
      Amid next Aside Goal labels state (labels' ++ [label]) after

/-- Every schedule comes to the goal that goes on making the turns, whatever happens aside:
wherever that leads, the goal is reached or some turn is possible, and each turn leads to
where the goal is inevitable. -/
inductive Inevitable (next : σ → ι → Option (σ × α)) (Turn Aside : σ → ι → Prop)
    (Goal : List α → σ → Prop) : List α → σ → Prop where
  | intro {labels state}
      (possible : ∀ {labels' between}, Amid next Aside Goal labels state labels' between →
        ¬ Goal labels' between → ∃ input, Turn between input ∧ (next between input).isSome)
      (onwards : ∀ {labels' between input after label},
        Amid next Aside Goal labels state labels' between → ¬ Goal labels' between →
          Turn between input → next between input = some (after, label) →
            Inevitable next Turn Aside Goal (labels' ++ [label]) after) :
      Inevitable next Turn Aside Goal labels state

variable {next : σ → ι → Option (σ × α)} {Turn Aside : σ → ι → Prop} {Goal : List α → σ → Prop}
  {labels : List α} {state : σ}

/-- The rule: short of the goal some turn is possible, turns lower a rank, and what happens
aside leaves it. -/
theorem Inevitable.of_rank {less : ρ → ρ → Prop} (founded : WellFounded less) (rank : σ → ρ)
    {Inv : List α → σ → Prop}
    (advances : ∀ {labels state}, Inv labels state → ¬ Goal labels state →
      ∃ input, Turn state input ∧ (next state input).isSome)
    (lowers : ∀ {labels before input after label}, Inv labels before → ¬ Goal labels before →
      Turn before input → next before input = some (after, label) →
        Inv (labels ++ [label]) after ∧ less (rank after) (rank before))
    (keeps : ∀ {labels before input after label}, Inv labels before → ¬ Goal labels before →
      Aside before input → next before input = some (after, label) →
        Inv (labels ++ [label]) after ∧ rank after = rank before)
    (inv : Inv labels state) : Inevitable next Turn Aside Goal labels state := by
  generalize value : rank state = height
  induction height using founded.induction generalizing labels state with
  | _ height ih =>
      have known {labels' : List α} {between : σ} (amid : Amid next Aside Goal labels state labels' between) :
          Inv labels' between ∧ rank between = height := by
        induction amid with
        | here => exact ⟨inv, value⟩
        | step _ open_ aside stepped known =>
            obtain ⟨inv', same⟩ := keeps known.1 open_ aside stepped
            exact ⟨inv', same.trans known.2⟩
      refine .intro (fun amid open_ => advances (known amid).1 open_) fun amid open_ turn stepped => ?_
      obtain ⟨inv', lower⟩ := lowers (known amid).1 open_ turn stepped
      rw [(known amid).2] at lower
      exact ih _ lower inv' rfl

end System

end LiteWebServer.Data
