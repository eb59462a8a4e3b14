import LiteWebServer.Data.Transition
import Mathlib.Data.List.Basic
import Mathlib.Logic.Function.Basic
import Mathlib.Order.Lattice
import Mathlib.Order.Monotone.Defs

namespace LiteWebServer.Data

/-! Finding what is idle.  Every touch sets the deadline of what is touched, and a pass
picks whatever is past its deadline. -/

/-- `last` has the last touch of all that is watched.  `due` is what the last pass picked
and is still to go. -/
structure Watch (ι T : Type) where
  clock : T
  last : ι → Option T
  due : List ι

/-- A touch may be the last before the thing leaves. -/
inductive WatchNote (ι T : Type) where
  | quiet
  | touched (id : ι) (now : T) (stays : Bool)
  | dropped (id : ι)
  | passed (now : T)
  | expired (id : ι)
deriving DecidableEq, Repr

namespace WatchNote

variable {ι T : Type}

def touch? [DecidableEq ι] (id : ι) : WatchNote ι T → Option T
  | .touched other now _ => if other = id then some now else none
  | _ => none

/-- The reading of a touch, whatever was touched. -/
def touchedAt? : WatchNote ι T → Option T
  | .touched _ now _ => some now
  | _ => none

def pass? : WatchNote ι T → Option T
  | .passed now => some now
  | _ => none

end WatchNote

namespace Watch

variable {ι T : Type} {notes : List (WatchNote ι T)} {note : WatchNote ι T} {id : ι}

def touches [DecidableEq ι] (notes : List (WatchNote ι T)) (id : ι) : List T :=
  notes.filterMap (WatchNote.touch? id)

def passes (notes : List (WatchNote ι T)) : List T := notes.filterMap WatchNote.pass?

@[simp] theorem touches_concat [DecidableEq ι] :
    touches (notes ++ [note]) id = touches notes id ++ (note.touch? id).toList := by
  cases said : note.touch? id <;> simp [touches, said]

@[simp] theorem passes_concat : passes (notes ++ [note]) = passes notes ++ note.pass?.toList := by
  cases said : note.pass? <;> simp [passes, said]

theorem touches_passed [DecidableEq ι] (now : T) :
    touches (notes ++ [.passed now]) id = touches notes id := by
  simp [WatchNote.touch?]

theorem passes_touched (now : T) (stays : Bool) :
    passes (notes ++ [.touched id now stays]) = passes notes := by
  simp [WatchNote.pass?]

variable [DecidableEq ι] [LinearOrder T] {deadline : T → T} {watch after : Watch ι T}

def Step (deadline : T → T) (watch : Watch ι T) : WatchNote ι T → Watch ι T → Prop
  | .quiet, after => after = watch
  | .touched id now stays, after =>
      watch.clock ≤ now ∧ watch.due = [] ∧ after = { watch with
        clock := now, last := Function.update watch.last id (if stays then some now else none) }
  | .dropped id, after => after = { watch with last := Function.update watch.last id none }
  | .passed now, after =>
      watch.clock ≤ now ∧ watch.due = [] ∧ after.clock = now ∧ after.due.Nodup ∧
        (∀ id, id ∈ after.due ↔ ∃ touch, watch.last id = some touch ∧ deadline touch ≤ now) ∧
        ∀ id, after.last id = (watch.last id).filter (now < deadline ·)
  | .expired id, after =>
      watch.due = id :: after.due ∧ after.clock = watch.clock ∧
        after.last = Function.update watch.last id none

def system (deadline : T → T) : System (Watch ι T) (WatchNote ι T) where
  start watch := watch.last = (fun _ => none) ∧ watch.due = []
  step := Step deadline

/-- What the notes of a run say about its end. -/
structure Kept (deadline : T → T) (notes : List (WatchNote ι T)) (watch : Watch ι T) : Prop where
  touched : ∀ id, ∀ touch ∈ touches notes id, touch ≤ watch.clock
  passed : ∀ now ∈ passes notes, now ≤ watch.clock
  last : ∀ id touch, watch.last id = some touch →
    (touches notes id).getLast? = some touch ∧ (∀ earlier ∈ touches notes id, earlier ≤ touch) ∧
      ∀ now ∈ passes notes, now < deadline touch
  due : ∀ id ∈ watch.due, touches notes id ≠ [] ∧ ∃ now, (passes notes).getLast? = some now ∧
    ∀ touch ∈ touches notes id, deadline touch ≤ now

/-- A step without a touch or a pass, after which no more is watched and no more is due. -/
theorem Kept.silent (kept : Kept deadline notes watch) (touch : ∀ id, note.touch? id = none)
    (pass : note.pass? = none) (clock : after.clock = watch.clock)
    (last : ∀ id touch, after.last id = some touch → watch.last id = some touch)
    (due : ∀ id ∈ after.due, id ∈ watch.due) : Kept deadline (notes ++ [note]) after where
  touched id := by simpa [touch, clock] using kept.touched id
  passed := by simpa [pass, clock] using kept.passed
  last id at_ found := by simpa [touch, pass] using kept.last id at_ (last id at_ found)
  due id member := by simpa [touch, pass] using kept.due id (due id member)

theorem Kept.touch (kept : Kept deadline notes watch) (later : ∀ now, now < deadline now) {now : T}
    (order : watch.clock ≤ now) (none_due : watch.due = []) (stays : Bool) :
    Kept deadline (notes ++ [.touched id now stays]) { watch with
      clock := now, last := Function.update watch.last id (if stays then some now else none) } where
  touched other touch member := by
    rw [touches_concat, List.mem_append] at member
    rcases member with before | this
    · exact (kept.touched other touch before).trans order
    · simp only [WatchNote.touch?, Option.mem_toList, Option.ite_none_right_eq_some,
        Option.some.injEq] at this
      exact this.2.ge
  passed pass member := by
    rw [passes_touched] at member
    exact (kept.passed pass member).trans order
  last other touch found := by
    rw [passes_touched]
    dsimp only at found
    by_cases same : other = id
    · subst same
      rw [Function.update_self, Option.ite_none_right_eq_some, Option.some.injEq] at found
      obtain ⟨-, rfl⟩ := found
      refine ⟨by simp [WatchNote.touch?], fun earlier member => ?_, fun pass member => ?_⟩
      · rw [touches_concat, List.mem_append] at member
        rcases member with before | this
        · exact (kept.touched other earlier before).trans order
        · simp [WatchNote.touch?] at this
          exact this.le
      · exact lt_of_le_of_lt ((kept.passed pass member).trans order) (later now)
    · rw [Function.update_of_ne same] at found
      simpa [WatchNote.touch?, Ne.symm same] using kept.last other touch found
  due other member := by
    rw [none_due] at member
    cases member

theorem Kept.pass (kept : Kept deadline notes watch) (mono : Monotone deadline) {now : T}
    (order : watch.clock ≤ now) (clock : after.clock = now)
    (due : ∀ id, id ∈ after.due ↔ ∃ touch, watch.last id = some touch ∧ deadline touch ≤ now)
    (last : ∀ id, after.last id = (watch.last id).filter (now < deadline ·)) :
    Kept deadline (notes ++ [.passed now]) after where
  touched id touch member := by
    rw [touches_passed] at member
    rw [clock]
    exact (kept.touched id touch member).trans order
  passed pass member := by
    rw [passes_concat, List.mem_append] at member
    rw [clock]
    rcases member with before | this
    · exact (kept.passed pass before).trans order
    · exact (List.mem_singleton.mp this).le
  last id touch found := by
    rw [last, Option.filter_eq_some_iff, decide_eq_true_iff] at found
    obtain ⟨recent, bound, ahead⟩ := kept.last id touch found.1
    rw [touches_passed]
    refine ⟨recent, bound, fun pass member => ?_⟩
    rw [passes_concat, List.mem_append] at member
    rcases member with before | this
    · exact ahead pass before
    · rw [List.mem_singleton.mp this]
      exact found.2
  due id member := by
    obtain ⟨touch, found, overdue⟩ := (due id).mp member
    obtain ⟨recent, bound, -⟩ := kept.last id touch found
    rw [touches_passed]
    refine ⟨fun bare => ?_, now, by simp [WatchNote.pass?], fun earlier listed => ?_⟩
    · rw [bare] at recent
      cases recent
    · exact (mono (bound earlier listed)).trans overdue

omit [LinearOrder T] in
theorem update_none_eq_some {last : ι → Option T} {other : ι} {touch : T}
    (found : Function.update last id none other = some touch) : last other = some touch := by
  by_cases same : other = id
  · subst same
    rw [Function.update_self] at found
    cases found
  · rwa [Function.update_of_ne same] at found

theorem Kept.step (kept : Kept deadline notes watch) (mono : Monotone deadline)
    (later : ∀ now, now < deadline now) (stepped : Step deadline watch note after) :
    Kept deadline (notes ++ [note]) after := by
  cases note with
  | quiet =>
      cases stepped
      exact kept.silent (fun _ => rfl) rfl rfl (fun _ _ found => found) fun _ member => member
  | touched id now stays =>
      obtain ⟨order, none_due, rfl⟩ := stepped
      exact kept.touch later order none_due stays
  | dropped id =>
      cases stepped
      exact kept.silent (fun _ => rfl) rfl rfl (fun _ _ => update_none_eq_some)
        fun _ member => member
  | passed now =>
      obtain ⟨order, -, clock, -, due, last⟩ := stepped
      exact kept.pass mono order clock due last
  | expired id =>
      obtain ⟨due, clock, last⟩ := stepped
      refine kept.silent (fun _ => rfl) rfl clock (fun other touch found => ?_) fun other member => ?_
      · rw [last] at found
        exact update_none_eq_some found
      · rw [due]
        exact List.mem_cons_of_mem _ member

theorem runs_kept (mono : Monotone deadline) (later : ∀ now, now < deadline now)
    (run : (system deadline).Runs notes watch) : Kept deadline notes watch := by
  refine @System.Runs.invariant _ _ _ (fun notes watch => Kept deadline notes watch) ?_ ?_ _ _ run
  · intro watch started
    obtain ⟨unwatched, none_due⟩ := started
    exact ⟨by simp [touches], by simp [passes], fun id touch found => by simp [unwatched] at found,
      fun id member => by simp [none_due] at member⟩
  · intro notes before note after kept stepped
    exact kept.step mono later stepped

/-- What expires was not touched since its deadline, by the reading of the last pass. -/
theorem expired_idle (mono : Monotone deadline) (later : ∀ now, now < deadline now)
    {rest : List (WatchNote ι T)}
    (run : (system deadline).Runs (notes ++ .expired id :: rest) watch) :
    touches notes id ≠ [] ∧ ∃ now, (passes notes).getLast? = some now ∧
      ∀ touch ∈ touches notes id, deadline touch ≤ now := by
  obtain ⟨before, next, run, due, -⟩ := run.cut
  exact (runs_kept mono later run).due id (by rw [due]; exact List.mem_cons_self)

/-- The readings of the touches, of whatever it was, whose deadlines no pass has found over. -/
def recent (deadline : T → T) (notes : List (WatchNote ι T)) : List T :=
  (notes.filterMap WatchNote.touchedAt?).filter fun touch => ∀ now ∈ passes notes, now < deadline touch

omit [DecidableEq ι] in
theorem recent_silent (touch : note.touchedAt? = none) (pass : note.pass? = none) :
    recent deadline (notes ++ [note]) = recent deadline notes := by
  simp [recent, touch, pass]

omit [DecidableEq ι] in
theorem recent_passed (now : T) :
    recent deadline (notes ++ [.passed now]) =
      (recent deadline notes).filter fun touch => now < deadline touch := by
  simp only [recent, passes_concat, List.filterMap_append, List.filter_filter]
  simp [WatchNote.touchedAt?, WatchNote.pass?, or_imp, forall_and, Bool.and_comm]

omit [DecidableEq ι] in
theorem recent_touched {now : T} (stays : Bool) (ahead : ∀ pass ∈ passes notes, pass < deadline now) :
    recent deadline (notes ++ [.touched id now stays]) = recent deadline notes ++ [now] := by
  simpa [recent, WatchNote.touchedAt?, WatchNote.pass?] using ahead

end Watch

end LiteWebServer.Data
