import Mathlib.Data.List.Basic
import Mathlib.Data.List.Infix

namespace LiteWebServer.Data

/-! Leftmost search in finite sequences.  `find?` reports the index of the first
occurrence of a needle; the lemmas say how that index behaves when the text
grows at its end, and where a delimiter is found behind a piece free of it. -/

def find? [DecidableEq α] (needle : List α) : List α → Option Nat
  | [] => if needle = [] then some 0 else none
  | head :: rest =>
      if needle <+: head :: rest then some 0
      else (find? needle rest).map (· + 1)

/-- The search that starts at `pos` and reports absolute positions; a start
beyond the end finds nothing, not even an empty needle. -/
def findFrom [DecidableEq α] (needle text : List α) (pos : Nat) : Option Nat :=
  if pos ≤ text.length then (find? needle (text.drop pos)).map (· + pos) else none

/-- `text` cut at the first occurrence of the needle. -/
structure FirstCut (needle text front back : List α) : Prop where
  whole : text = front ++ needle ++ back
  before : ¬ needle <:+: front

theorem FirstCut.occurs {needle text front back : List α} (cut : FirstCut needle text front back) :
    needle <:+: text := ⟨front, back, cut.whole.symm⟩

section

variable [DecidableEq α] {needle text more : List α} {k : Nat}

theorem findFrom_of_le {pos : Nat} (inside : pos ≤ text.length) :
    findFrom needle text pos = (find? needle (text.drop pos)).map (· + pos) :=
  if_pos inside

theorem findFrom_zero (needle text : List α) : findFrom needle text 0 = find? needle text := by
  rw [findFrom_of_le (Nat.zero_le _), List.drop_zero]
  exact Option.map_id'

theorem find?_occurs (found : find? needle text = some k) :
    needle <+: text.drop k ∧ k ≤ text.length := by
  induction text generalizing k with
  | nil =>
      by_cases empty : needle = []
      · simp only [find?, if_pos empty, Option.some.injEq] at found
        subst k
        simp [empty]
      · simp [find?, empty] at found
  | cons head rest ih =>
      by_cases here : needle <+: head :: rest
      · simp only [find?, if_pos here, Option.some.injEq] at found
        subst k
        simpa using here
      · simp only [find?, if_neg here, Option.map_eq_some_iff] at found
        obtain ⟨index, foundRest, rfl⟩ := found
        obtain ⟨occurs, bound⟩ := ih foundRest
        exact ⟨by simpa using occurs, by simpa using bound⟩

theorem find?_bound (found : find? needle text = some k) :
    k + needle.length ≤ text.length := by
  obtain ⟨occurs, bound⟩ := find?_occurs found
  have width := occurs.length_le
  rw [List.length_drop] at width
  omega

theorem find?_first (found : find? needle text = some k) {j : Nat} (earlier : j < k) :
    ¬ needle <+: text.drop j := by
  induction text generalizing k j with
  | nil =>
      have bound := (find?_occurs found).2
      simp only [List.length_nil] at bound
      omega
  | cons head rest ih =>
      by_cases here : needle <+: head :: rest
      · simp only [find?, if_pos here, Option.some.injEq] at found
        omega
      · simp only [find?, if_neg here, Option.map_eq_some_iff] at found
        obtain ⟨index, foundRest, rfl⟩ := found
        cases j with
        | zero => simpa using here
        | succ j => simpa using ih foundRest (by omega)

/-- The text in front of the first occurrence has none. -/
theorem find?_before (found : find? needle text = some k) (nonempty : needle ≠ []) :
    ¬ needle <:+: text.take k := by
  intro held
  obtain ⟨front, back, split⟩ := held
  have width := congrArg List.length split
  have positive := List.length_pos_iff.mpr nonempty
  simp only [List.length_append, List.length_take] at width
  refine find?_first found (j := front.length) (by omega) ?_
  have occurs : needle <+: (text.take k).drop front.length := by
    rw [← split, List.append_assoc, List.drop_left]
    exact List.prefix_append _ _
  exact occurs.trans ((List.take_prefix k text).drop front.length)

theorem find?_eq_none_iff : find? needle text = none ↔ ¬ needle <:+: text := by
  induction text with
  | nil =>
      by_cases empty : needle = []
      · simp [find?, empty]
      · simp [find?, empty]
  | cons head rest ih =>
      by_cases here : needle <+: head :: rest
      · simp [find?, here, here.isInfix]
      · rw [List.infix_cons_iff]
        simp [find?, here, ih]

theorem find?_eq_some_of_first (occurs : needle <+: text.drop k)
    (first : ∀ j, j < k → ¬ needle <+: text.drop j) : find? needle text = some k := by
  cases search : find? needle text with
  | none =>
      have absent := find?_eq_none_iff.mp search
      exact absurd (occurs.isInfix.trans (List.drop_suffix k text).isInfix) absent
  | some index =>
      obtain ⟨occursIndex, _⟩ := find?_occurs search
      rcases Nat.lt_trichotomy index k with lower | same | higher
      · exact absurd occursIndex (first index lower)
      · rw [same]
      · exact absurd occurs (find?_first search higher)

theorem find?_append_of_some (found : find? needle text = some k) :
    find? needle (text ++ more) = some k := by
  obtain ⟨occurs, bound⟩ := find?_occurs found
  have width := find?_bound found
  apply find?_eq_some_of_first
  · rw [List.drop_append_of_le_length bound]
    exact occurs.trans (List.prefix_append _ _)
  · intro j earlier occursEarly
    apply find?_first found earlier
    rw [List.drop_append_of_le_length (by omega)] at occursEarly
    refine List.prefix_of_prefix_length_le occursEarly (List.prefix_append _ _) ?_
    rw [List.length_drop]
    omega

/-- An occurrence that appears only in the longer text reaches past the end of
the shorter one. -/
theorem find?_append_of_none (absent : find? needle text = none)
    (found : find? needle (text ++ more) = some k) : text.length < k + needle.length := by
  by_contra within
  have inside : k + needle.length ≤ text.length := by omega
  obtain ⟨occurs, _⟩ := find?_occurs found
  rw [List.drop_append_of_le_length (by omega)] at occurs
  have prefixText : needle <+: text.drop k :=
    List.prefix_of_prefix_length_le occurs (List.prefix_append _ _) (by
      rw [List.length_drop]
      omega)
  exact find?_eq_none_iff.mp absent (prefixText.isInfix.trans (List.drop_suffix k text).isInfix)

/-- No proper suffix of the needle is also a prefix of it, so two occurrences
never overlap. -/
def Unbordered (needle : List α) : Prop :=
  ∀ k, k < needle.length → 0 < k → ¬ needle.drop k <+: needle

instance (needle : List α) : Decidable (Unbordered needle) :=
  inferInstanceAs (Decidable (∀ k, k < needle.length → 0 < k → ¬ needle.drop k <+: needle))

/-- Behind this piece the needle is found there, and not earlier. -/
def EndsPiece (needle piece : List α) : Prop := find? needle (piece ++ needle) = some piece.length

theorem EndsPiece.find? {piece : List α} (ends : EndsPiece needle piece) :
    find? needle (piece ++ needle ++ more) = some piece.length := find?_append_of_some ends

theorem EndsPiece.free {piece : List α} (ends : EndsPiece needle piece) (nonempty : needle ≠ []) :
    ¬ needle <:+: piece := by
  have before := find?_before ends nonempty
  rwa [List.take_left] at before

/-- An occurrence of the needle in the front of a text is one in the text. -/
theorem endsPiece_of_find? (found : find? needle text = some k) :
    EndsPiece needle (text.take k) := by
  obtain ⟨occurs, bound⟩ := find?_occurs found
  obtain ⟨back, behind⟩ := occurs
  have width : (text.take k).length = k := List.length_take_of_le bound
  have whole : text.take k ++ needle ++ back = text := by
    rw [List.append_assoc, behind, List.take_append_drop]
  apply find?_eq_some_of_first
  · rw [List.drop_left]
  · intro j earlier occursEarly
    rw [width] at earlier
    apply find?_first found earlier
    rw [← whole, List.drop_append_of_le_length (by rw [List.length_append, width]; omega)]
    exact occursEarly.trans (List.prefix_append _ _)

/-- An unbordered delimiter ends every piece that is free of it. -/
theorem Unbordered.endsPiece {piece : List α} (unbordered : Unbordered needle)
    (free : ¬ needle <:+: piece) : EndsPiece needle piece := by
  apply find?_eq_some_of_first
  · rw [List.drop_left]
  · intro j earlier occurs
    rw [List.drop_append_of_le_length (by omega)] at occurs
    have overlap : (piece.drop j).length = piece.length - j := List.length_drop
    by_cases within : needle.length ≤ (piece.drop j).length
    · have inside : needle <+: piece.drop j :=
        List.prefix_of_prefix_length_le occurs (List.prefix_append _ _) within
      exact free (inside.isInfix.trans (List.drop_suffix j piece).isInfix)
    · have head : piece.drop j <+: needle :=
        List.prefix_of_prefix_length_le (List.prefix_append _ _) occurs (by omega)
      obtain ⟨tail, split⟩ := head
      have border : needle.drop (piece.drop j).length = tail := by
        rw [← split, List.drop_left]
      apply unbordered (piece.drop j).length (by omega) (by omega)
      rw [border]
      rw [← split] at occurs
      exact (List.prefix_append_right_inj (piece.drop j)).mp
        (occurs.trans (by rw [split]))

/-- Behind a piece free of it, an unbordered delimiter is found exactly at the
end of the piece, whatever follows. -/
theorem find?_piece {piece : List α} (unbordered : Unbordered needle)
    (free : ¬ needle <:+: piece) : find? needle (piece ++ needle ++ more) = some piece.length :=
  (unbordered.endsPiece free).find?

theorem find?_cut (found : find? needle text = some k) (nonempty : needle ≠ []) :
    FirstCut needle text (text.take k) (text.drop (k + needle.length)) where
  whole := by
    obtain ⟨back, occurs⟩ := (find?_occurs found).1
    rw [← List.drop_drop, ← occurs, List.drop_left, List.append_assoc, occurs, List.take_append_drop]
  before := find?_before found nonempty

theorem FirstCut.find? {front back : List α} (cut : FirstCut needle text front back)
    (unbordered : Unbordered needle) : find? needle text = some front.length := by
  rw [cut.whole]
  exact find?_piece unbordered cut.before

theorem FirstCut.unique {front back front' back' : List α} (cut : FirstCut needle text front back)
    (other : FirstCut needle text front' back') (unbordered : Unbordered needle) :
    front = front' ∧ back = back' := by
  have width : front.length = front'.length :=
    Option.some.inj ((cut.find? unbordered).symm.trans (other.find? unbordered))
  have same := cut.whole.symm.trans other.whole
  rw [List.append_assoc, List.append_assoc] at same
  obtain ⟨fronts, backs⟩ := List.append_inj same width
  exact ⟨fronts, List.append_cancel_left backs⟩

/-- The pieces in front of the successive occurrences of the needle, and what is behind
the last one. -/
def pieces (needle text : List α) : List (List α) × List α :=
  match _ : Data.find? needle text with
  | none => ([], text)
  | some k =>
      if needle = [] then ([], text)
      else
        let rest := pieces needle (text.drop (k + needle.length))
        (text.take k :: rest.1, rest.2)
termination_by text.length
decreasing_by
  have bound := find?_bound ‹find? needle text = some k›
  have positive := List.length_pos_iff.mpr ‹needle ≠ []›
  rw [List.length_drop]
  omega

theorem pieces_of_free (free : ¬ needle <:+: text) : pieces needle text = ([], text) := by
  rw [pieces]
  split
  · rfl
  · rename_i found
    rw [find?_eq_none_iff.mpr free] at found
    cases found

theorem pieces_first (found : Data.find? needle text = some k) (nonempty : needle ≠ []) :
    pieces needle text = (text.take k :: (pieces needle (text.drop (k + needle.length))).1,
      (pieces needle (text.drop (k + needle.length))).2) := by
  rw [pieces]
  split
  · rename_i search
    rw [found] at search
    cases search
  · rename_i search
    cases found.symm.trans search
    rw [if_neg nonempty]

theorem EndsPiece.pieces {piece : List α} (ends : EndsPiece needle piece) (nonempty : needle ≠ [])
    (back : List α) : pieces needle (piece ++ needle ++ back) =
      (piece :: (Data.pieces needle back).1, (Data.pieces needle back).2) := by
  have taken : (piece ++ needle ++ back).take piece.length = piece := by
    rw [List.append_assoc, List.take_left]
  have left : (piece ++ needle ++ back).drop (piece.length + needle.length) = back := by
    rw [← List.length_append, List.drop_left]
  rw [pieces_first ends.find? nonempty, taken, left]

theorem FirstCut.pieces {front back : List α} (cut : FirstCut needle text front back)
    (unbordered : Unbordered needle) (nonempty : needle ≠ []) :
    pieces needle text = (front :: (Data.pieces needle back).1, (Data.pieces needle back).2) := by
  rw [cut.whole]
  exact (unbordered.endsPiece cut.before).pieces nonempty back

/-- Pieces that the needle ends are cut out again. -/
theorem pieces_joined (nonempty : needle ≠ []) (parts : List (List α))
    (ends : ∀ part ∈ parts, EndsPiece needle part) (rest : List α) :
    pieces needle ((parts.flatMap fun part => part ++ needle) ++ rest) =
      (parts ++ (pieces needle rest).1, (pieces needle rest).2) := by
  induction parts with
  | nil => rfl
  | cons part parts ih =>
      rw [List.flatMap_cons, List.append_assoc,
        (ends part List.mem_cons_self).pieces nonempty,
        ih fun part member => ends part (List.mem_cons_of_mem _ member)]
      rfl

/-- What the cutting leaves is the text, in pieces that the needle ends and a last one
that is free of it. -/
theorem pieces_cut (nonempty : needle ≠ []) (text : List α) :
    ((pieces needle text).1.flatMap fun part => part ++ needle) ++ (pieces needle text).2 = text ∧
      (∀ part ∈ (pieces needle text).1, EndsPiece needle part) ∧
      ¬ needle <:+: (pieces needle text).2 := by
  cases found : Data.find? needle text with
  | none =>
      have free := find?_eq_none_iff.mp found
      rw [pieces_of_free free]
      exact ⟨rfl, fun part member => absurd member List.not_mem_nil, free⟩
  | some k =>
      have shorter : (text.drop (k + needle.length)).length < text.length := by
        have bound := find?_bound found
        have positive := List.length_pos_iff.mpr nonempty
        rw [List.length_drop]
        omega
      obtain ⟨whole, ends, last⟩ := pieces_cut nonempty (text.drop (k + needle.length))
      rw [pieces_first found nonempty]
      refine ⟨?_, ?_, last⟩
      · rw [List.flatMap_cons, List.append_assoc, whole]
        exact (find?_cut found nonempty).whole.symm
      · intro part member
        rcases List.mem_cons.mp member with rfl | later
        · exact endsPiece_of_find? found
        · exact ends part later
termination_by text.length
decreasing_by exact shorter

end

/-- Joining puts the separator behind every piece but the last one. -/
theorem intercalate_concat (sep : List α) (parts : List (List α)) (last : List α) :
    sep.intercalate (parts ++ [last]) = (parts.flatMap fun part => part ++ sep) ++ last := by
  induction parts with
  | nil => exact List.intercalate_singleton
  | cons part parts ih =>
      rw [List.cons_append, List.intercalate_cons_of_ne_nil (by simp), ih, List.flatMap_cons,
        List.append_assoc, List.append_assoc, List.append_assoc]

/-- A needle without the separator lies on one side of it. -/
theorem infix_append_cons_iff {needle text more : List α} {separator : α}
    (outside : separator ∉ needle) :
    needle <:+: text ++ separator :: more ↔ needle <:+: text ∨ needle <:+: more := by
  constructor
  · intro held
    obtain ⟨front, back, split⟩ := held
    rw [List.append_assoc, List.append_eq_append_iff] at split
    rcases split with ⟨rest, whole, tail⟩ | ⟨rest, whole, tail⟩
    · rw [List.append_eq_append_iff] at tail
      rcases tail with ⟨rest', split, _⟩ | ⟨rest', split, tail⟩
      · exact .inl ⟨front, rest', by rw [whole, split, List.append_assoc]⟩
      · cases rest' with
        | nil => exact .inl ⟨front, [], by rw [whole, split]; simp⟩
        | cons head rest' =>
            rw [List.cons_append, List.cons.injEq] at tail
            exact absurd (by rw [split, tail.1]; simp) outside
    · cases rest with
      | nil =>
          cases needle with
          | nil => exact .inl (List.nil_infix)
          | cons head needle =>
              rw [List.nil_append, List.cons_append, List.cons.injEq] at tail
              exact absurd (by rw [tail.1]; exact List.mem_cons_self) outside
      | cons head rest =>
          rw [List.cons_append, List.cons.injEq] at tail
          exact .inr ⟨rest, back, by rw [tail.2, List.append_assoc]⟩
  · intro either
    rcases either with left | right
    · exact left.trans (List.prefix_append text _).isInfix
    · exact right.trans ((List.suffix_cons _ _).trans (List.suffix_append _ _)).isInfix

end LiteWebServer.Data
