import Mathlib.Data.List.Basic

namespace LiteWebServer.Data

/-! The history of a holder of at most one resource, which it takes and releases. -/

inductive Use (α : Type) where
  | taken (resource : α)
  | released (resource : α)
deriving DecidableEq, Repr

namespace Use

def isTaken : Use α → Bool
  | .taken _ => true
  | .released _ => false

def isReleased : Use α → Bool
  | .taken _ => false
  | .released _ => true

end Use

/-- The uses that lead from what is held at first to what is held at last. -/
inductive Ledger : Option α → List (Use α) → Option α → Prop where
  | nil {held} : Ledger held [] held
  | taken {resource later held} (ledger : Ledger (some resource) later held) :
      Ledger none (.taken resource :: later) held
  | released {resource later held} (ledger : Ledger none later held) :
      Ledger (some resource) (.released resource :: later) held

/-- The resource is the one taken last, and not released since. -/
def HeldLast (history : List (Use α)) (resource : α) : Prop :=
  ∃ earlier later, history = earlier ++ .taken resource :: later ∧
    (∀ other, .taken other ∉ later) ∧ .released resource ∉ later

namespace Ledger

variable {first middle last : Option α} {history later : List (Use α)} {resource : α}

theorem append (ledger : Ledger first history middle) (further : Ledger middle later last) :
    Ledger first (history ++ later) last := by
  induction ledger with
  | nil => exact further
  | taken _ ih => exact .taken (ih further)
  | released _ ih => exact .released (ih further)

theorem split (ledger : Ledger first (history ++ later) last) :
    ∃ middle, Ledger first history middle ∧ Ledger middle later last := by
  induction history generalizing first with
  | nil => exact ⟨first, .nil, ledger⟩
  | cons use history ih =>
      cases ledger with
      | taken ledger =>
          obtain ⟨middle, front, back⟩ := ih ledger
          exact ⟨middle, .taken front, back⟩
      | released ledger =>
          obtain ⟨middle, front, back⟩ := ih ledger
          exact ⟨middle, .released front, back⟩

/-- What is held at last was held at first, or is the last use. -/
theorem held (ledger : Ledger first history (some resource)) :
    history = [] ∧ first = some resource ∨ ∃ earlier, history = earlier ++ [.taken resource] := by
  induction history generalizing first with
  | nil =>
      cases ledger
      exact .inl ⟨rfl, rfl⟩
  | cons use history ih =>
      right
      cases ledger with
      | taken ledger =>
          rcases ih ledger with ⟨rfl, same⟩ | ⟨earlier, rfl⟩
          · cases same
            exact ⟨[], rfl⟩
          · exact ⟨_ :: earlier, rfl⟩
      | released ledger =>
          rcases ih ledger with ⟨-, wrong⟩ | ⟨earlier, rfl⟩
          · cases wrong
          · exact ⟨_ :: earlier, rfl⟩

/-- Only what was taken last, and is still held, is ever released. -/
theorem released_last (ledger : Ledger none (history ++ .released resource :: later) last) :
    HeldLast history resource := by
  obtain ⟨middle, front, back⟩ := ledger.split
  cases back with
  | released back =>
      rcases front.held with ⟨-, same⟩ | ⟨earlier, rfl⟩
      · cases same
      · exact ⟨earlier, [], rfl, fun other => List.not_mem_nil, List.not_mem_nil⟩

theorem balance (ledger : Ledger first history last) :
    history.countP Use.isTaken + first.toList.length =
      history.countP Use.isReleased + last.toList.length := by
  induction ledger with
  | nil => rfl
  | taken _ ih =>
      simp only [List.countP_cons, Use.isTaken, Use.isReleased, Option.toList_some,
        Option.toList_none, List.length_singleton, List.length_nil] at ih ⊢
      simpa using ih
  | released _ ih =>
      simp only [List.countP_cons, Use.isTaken, Use.isReleased, Option.toList_some,
        Option.toList_none, List.length_singleton, List.length_nil] at ih ⊢
      simp only [Bool.false_eq_true, if_false, if_true]
      omega

end Ledger

end LiteWebServer.Data
