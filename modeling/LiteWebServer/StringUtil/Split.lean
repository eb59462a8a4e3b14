import LiteWebServer.StringUtil

namespace LiteWebServer

open Data

/-! Splitting a string and joining its pieces, for delimiters that may overlap themselves. -/

variable {delim : Bytes}

/-- Each turn moves past a delimiter, so the loop ends; it has cut `str` from `startPos` on. -/
theorem strSplitLoop_eq (nonempty : delim ≠ []) (str : Bytes) (fuel startPos : Nat) (ret : List Bytes)
    (inside : startPos ≤ str.length) (enough : str.length - startPos < fuel) :
    strSplitLoop fuel str delim startPos ret = .ok
      (ret ++ ((pieces delim (str.drop startPos)).1 ++ [(pieces delim (str.drop startPos)).2])) := by
  induction fuel generalizing startPos ret with
  | zero => omega
  | succ fuel ih =>
      rw [strSplitLoop, findFrom_of_le inside]
      cases found : find? delim (str.drop startPos) with
      | none =>
          rw [pieces_of_free (find?_eq_none_iff.mp found)]
          simp only [Option.map_none, substrFrom_of_le inside, bind, Except.bind, List.nil_append]
          rfl
      | some k =>
          have bound := find?_bound found
          have positive := List.length_pos_iff.mpr nonempty
          rw [List.length_drop] at bound
          have rest : (str.drop startPos).drop (k + delim.length) =
              str.drop (k + startPos + delim.length) := by
            rw [List.drop_drop]
            congr 1
            omega
          simp only [Option.map_some, substr_found inside, bind, Except.bind]
          rw [ih _ _ (by omega) (by omega), pieces_first found nonempty, rest, List.append_assoc]
          rfl

theorem strSplit_eq (nonempty : delim ≠ []) (str : Bytes) :
    strSplit str delim = .ok ((pieces delim str).1 ++ [(pieces delim str).2]) :=
  strSplitLoop_eq nonempty str (str.length + 1) 0 [] (Nat.zero_le _) (by omega)

/-- A split undoes a join, and a join undoes a split. -/
theorem str_split_round_trip (nonempty : delim ≠ []) :
    (∀ str, ∃ parts, strSplit str delim = .ok parts ∧ delim.intercalate parts = str ∧
      ∀ part ∈ parts, ¬ delim <:+: part) ∧
    ∀ parts last, (∀ part ∈ parts, find? delim (part ++ delim) = some part.length) →
      ¬ delim <:+: last →
        strSplit (delim.intercalate (parts ++ [last])) delim = .ok (parts ++ [last]) := by
  constructor
  · intro str
    obtain ⟨whole, ends, free⟩ := pieces_cut nonempty str
    refine ⟨_, strSplit_eq nonempty str, (intercalate_concat delim _ _).trans whole, ?_⟩
    intro part member
    rcases List.mem_append.mp member with inner | outer
    · exact (ends part inner).free nonempty
    · rw [List.mem_singleton.mp outer]
      exact free
  · intro parts last ends free
    rw [strSplit_eq nonempty, intercalate_concat, pieces_joined nonempty parts ends,
      pieces_of_free free, List.append_nil]

/-- The leftmost of two overlapping delimiters is the one that is cut at. -/
theorem str_split_overlapping :
    strSplit (bytes "aaa") (bytes "aa") = .ok [[], bytes "a"] ∧
      ∃ parts, strSplit (bytes "baaac") (bytes "aa") = .ok parts ∧
        (bytes "aa").intercalate parts = bytes "baaac" := by
  have roundTrip := str_split_round_trip (by decide : bytes "aa" ≠ [])
  refine ⟨roundTrip.2 [[]] (bytes "a") (by decide) (by decide), ?_⟩
  obtain ⟨parts, ran, joined, -⟩ := roundTrip.1 (bytes "baaac")
  exact ⟨parts, ran, joined⟩

/-- An empty delimiter is found at the same place again, whatever the fuel. -/
theorem strSplitLoop_empty (str : Bytes) (fuel startPos : Nat) (ret : List Bytes)
    (inside : startPos ≤ str.length) :
    strSplitLoop fuel str [] startPos ret = .error .endless := by
  have here (text : Bytes) : find? [] text = some 0 := by cases text <;> simp [find?]
  induction fuel generalizing ret with
  | zero => rfl
  | succ fuel ih =>
      have piece : substr str startPos (startPos - startPos) = .ok [] := by
        rw [substr, if_pos inside, Nat.sub_self, List.take_zero]
      rw [strSplitLoop, findFrom_of_le inside, here]
      simp only [Option.map_some, Nat.zero_add, piece, bind, Except.bind, List.length_nil,
        Nat.add_zero]
      exact ih _

end LiteWebServer
