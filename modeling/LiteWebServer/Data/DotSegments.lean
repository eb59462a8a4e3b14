import Mathlib.Data.List.Basic
import Mathlib.Data.List.Infix

namespace LiteWebServer.Data

/-! Lexical resolution of paths.  A path is a list of segments over any type of names;
a place is what is left of it when every step up has taken back a step down. -/

inductive Segment (α : Type) where
  | here
  | up
  | name (name : α)
deriving DecidableEq, Repr

/-- Some steps above the start, then down along `names`. -/
structure Place (α : Type) where
  ups : Nat
  names : List α
deriving DecidableEq, Repr

namespace Place

variable {α : Type}

def start : Place α := ⟨0, []⟩

/-- One step up; above a root there is only the root. -/
def climb (rooted : Bool) (place : Place α) : Place α :=
  if place.names = [] then if rooted then place else { place with ups := place.ups + 1 }
  else { place with names := place.names.dropLast }

def step (rooted : Bool) (place : Place α) : Segment α → Place α
  | .here => place
  | .up => place.climb rooted
  | .name name => { place with names := place.names ++ [name] }

def walk (rooted : Bool) (place : Place α) (segments : List (Segment α)) : Place α :=
  segments.foldl (step rooted) place

def climbBy (rooted : Bool) (place : Place α) : Nat → Place α
  | 0 => place
  | count + 1 => (place.climbBy rooted count).climb rooted

/-- `move` taken from `base` instead of the start. -/
def follow (rooted : Bool) (base move : Place α) : Place α :=
  let top := base.climbBy rooted move.ups
  { top with names := top.names ++ move.names }

/-- `target` is reached from `base` by going down only. -/
def Inside (base target : Place α) : Prop :=
  target.ups = base.ups ∧ base.names <+: target.names

instance [DecidableEq α] (base target : Place α) : Decidable (Inside base target) :=
  inferInstanceAs (Decidable (_ ∧ _))

theorem inside_refl (base : Place α) : Inside base base := ⟨rfl, List.prefix_rfl⟩

variable {rooted : Bool} {base move : Place α}

theorem walk_nil : walk rooted base [] = base := rfl

@[simp] theorem walk_append (left right : List (Segment α)) :
    walk rooted base (left ++ right) = walk rooted (walk rooted base left) right :=
  List.foldl_append

theorem follow_step (base move : Place α) (segment : Segment α) :
    follow rooted base (move.step false segment) = (follow rooted base move).step rooted segment := by
  cases segment with
  | here => rfl
  | name name =>
      simp only [follow, step, List.append_assoc]
  | up =>
      by_cases top : move.names = []
      · simp only [follow, step, climb, top, if_true, Bool.false_eq_true, if_false, climbBy,
          List.append_nil]
      · have below : (base.climbBy rooted move.ups).names ++ move.names ≠ [] := by simp [top]
        simp only [follow, step, climb, if_neg top, if_neg below, List.dropLast_append_of_ne_nil top]

theorem walk_eq_follow (base : Place α) (segments : List (Segment α)) :
    walk rooted base segments = follow rooted base (walk false start segments) := by
  induction segments using List.reverseRecOn with
  | nil => rw [walk_nil, walk_nil, follow, start, climbBy, List.append_nil]
  | append_singleton segments segment ih =>
      rw [walk_append, walk_append, ih]
      exact (follow_step base _ segment).symm

theorem climbBy_eq (base : Place α) (count : Nat) :
    base.climbBy rooted count =
      ⟨if rooted then base.ups else base.ups + (count - base.names.length),
        base.names.take (base.names.length - count)⟩ := by
  induction count with
  | zero => cases rooted <;> simp [climbBy]
  | succ count ih =>
      rw [climbBy, ih, climb]
      by_cases atTop : base.names.length ≤ count
      · have none : base.names.take (base.names.length - count) = [] := by
          rw [Nat.sub_eq_zero_of_le atTop, List.take_zero]
        have noneNext : base.names.length - (count + 1) = 0 := by omega
        rw [if_pos none, none, noneNext, List.take_zero]
        cases rooted with
        | true => rfl
        | false =>
            simp only [Bool.false_eq_true, if_false, Place.mk.injEq, and_true]
            omega
      · have some : base.names.take (base.names.length - count) ≠ [] := by
          intro none
          have width := congrArg List.length none
          rw [List.length_take, List.length_nil] at width
          omega
        have stays : count - base.names.length = 0 := by omega
        have staysNext : count + 1 - base.names.length = 0 := by omega
        have width : min (base.names.length - count) base.names.length = base.names.length - count :=
          Nat.min_eq_left (Nat.sub_le _ _)
        have shorter : min (base.names.length - count - 1) (base.names.length - count) =
            base.names.length - (count + 1) := by omega
        rw [if_neg some, stays, staysNext, List.dropLast_eq_take, List.length_take, width,
          List.take_take, shorter]

theorem prefix_take_append_iff (names others : List α) (count : Nat) :
    names <+: names.take count ++ others ↔ names.drop count <+: others := by
  have whole : names.take count ++ names.drop count <+: names.take count ++ others ↔
      names.drop count <+: others := List.prefix_append_right_inj _
  rwa [List.take_append_drop] at whole

/-- Following a move stays inside the base exactly when the move, after all its steps
up, goes down again the way it came; from a root there are never too many. -/
theorem inside_follow_iff :
    Inside base (follow rooted base move) ↔
      (rooted = true ∨ move.ups ≤ base.names.length) ∧
        base.names.drop (base.names.length - move.ups) <+: move.names := by
  unfold Inside follow
  rw [climbBy_eq]
  dsimp only
  rw [prefix_take_append_iff]
  apply and_congr_left
  intro _
  cases rooted with
  | true => simp
  | false =>
      simp only [Bool.false_eq_true, if_false, false_or]
      omega

end Place

end LiteWebServer.Data
