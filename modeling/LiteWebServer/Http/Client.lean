import LiteWebServer.Data.Messages
import LiteWebServer.Http.Grammar

namespace LiteWebServer

open Data

/-! What a client reads of the responses on a connection.  It cuts lines and headers as the
server does with those of requests, and counts the bytes of the body. -/

structure ReadResponse where
  statusLine : Bytes
  headers : List (Bytes × Bytes)
  body : Bytes
deriving DecidableEq, Repr

/-- The lines in front of the first empty one, and what is behind that. -/
def readLines (text : Bytes) : Option (List Bytes × Bytes) :=
  match found : find? crlf text with
  | none => none
  | some k =>
      if k = 0 then some ([], text.drop 2)
      else (readLines (text.drop (k + 2))).map fun later => (text.take k :: later.1, later.2)
termination_by text.length
decreasing_by
  have bound := find?_bound found
  rw [List.length_drop]
  change k + 2 ≤ text.length at bound
  omega

def readHeader (line : Bytes) : Option (Bytes × Bytes) :=
  (find? (bytes ": ") line).map fun k => (line.take k, line.drop (k + 2))

/-- A body has the length that the head announces in decimal digits. -/
def readLength (headers : List (Bytes × Bytes)) : Option Nat := do
  let value ← headers.lookup (bytes "Content-Length")
  if value ≠ [] ∧ value.all isDigit then some (decimalValue value) else none

def readResponse (text : Bytes) : Option (ReadResponse × Bytes) := do
  let (lines, rest) ← readLines text
  let statusLine ← lines.head?
  let headers ← lines.tail.mapM readHeader
  let size ← readLength headers
  if size ≤ rest.length then some (⟨statusLine, headers, rest.take size⟩, rest.drop size) else none

theorem readLines_line {text : Bytes} {k : Nat} (found : find? crlf text = some k) (line : k ≠ 0) :
    readLines text =
      (readLines (text.drop (k + 2))).map fun later => (text.take k :: later.1, later.2) := by
  rw [readLines]
  split
  · rename_i absent
    rw [absent] at found
    cases found
  · rename_i k' found'
    obtain rfl := Option.some.inj (found.symm.trans found')
    exact if_neg line

theorem readLines_end {text : Bytes} (found : find? crlf text = some 0) :
    readLines text = some ([], text.drop 2) := by
  rw [readLines]
  split
  · rename_i absent
    rw [absent] at found
    cases found
  · rename_i k' found'
    obtain rfl := Option.some.inj (found.symm.trans found')
    exact if_pos rfl

theorem readLines_unfinished {text : Bytes} (absent : find? crlf text = none) :
    readLines text = none := by
  rw [readLines]
  split
  · rfl
  · rename_i k found
    rw [absent] at found
    cases found

theorem readLines_onward (text : Bytes) {lines : List Bytes} {rest : Bytes}
    (ran : readLines text = some (lines, rest)) (more : Bytes) :
    readLines (text ++ more) = some (lines, rest ++ more) := by
  induction length : text.length using Nat.strong_induction_on generalizing text lines with
  | _ length' ih =>
      subst length
      cases found : find? crlf text with
      | none =>
          rw [readLines_unfinished found] at ran
          cases ran
      | some k =>
          have bound := find?_bound found
          have width : crlf.length = 2 := rfl
          have found' : find? crlf (text ++ more) = some k := find?_append_of_some found
          by_cases last : k = 0
          · subst last
            rw [readLines_end found] at ran
            cases ran
            rw [readLines_end found', List.drop_append_of_le_length (by omega)]
          · rw [readLines_line found last] at ran
            obtain ⟨⟨later, rest'⟩, further, same⟩ := Option.map_eq_some_iff.mp ran
            cases same
            have shorter : (text.drop (k + 2)).length < text.length := by
              rw [List.length_drop]
              omega
            have onward := ih _ shorter (text.drop (k + 2)) further rfl
            rw [readLines_line found' last, List.drop_append_of_le_length (by omega), onward,
              List.take_append_of_le_length (by omega)]
            rfl

/-- Lines that hold something and end with their own `CRLF`, and an empty one. -/
theorem readLines_joined (lines : List Bytes) (each : ∀ line ∈ lines, line ≠ [] ∧ ¬ crlf <:+: line)
    (rest : Bytes) :
    readLines ((lines.flatMap fun line => line ++ crlf) ++ (crlf ++ rest)) = some (lines, rest) := by
  induction lines with
  | nil =>
      have found : find? crlf ([] ++ crlf ++ rest) = some ([] : Bytes).length :=
        find?_piece crlf_unbordered (by decide)
      exact readLines_end found
  | cons line later ih =>
      obtain ⟨some, free⟩ := each line List.mem_cons_self
      have shape : ((line :: later).flatMap fun line => line ++ crlf) ++ (crlf ++ rest) =
          line ++ crlf ++ ((later.flatMap fun line => line ++ crlf) ++ (crlf ++ rest)) := by
        rw [List.flatMap_cons, List.append_assoc]
      have found : find? crlf (line ++ crlf ++
          ((later.flatMap fun line => line ++ crlf) ++ (crlf ++ rest))) = Option.some line.length :=
        find?_piece crlf_unbordered free
      rw [shape, readLines_line found (by simpa using some), take_joined, drop_joined (by rfl),
        ih fun line member => each line (List.mem_cons_of_mem _ member)]
      rfl

theorem readResponse_selfEnding : SelfEnding readResponse where
  empty := by
    have absent : find? crlf ([] : Bytes) = none := by decide
    rw [readResponse, readLines_unfinished absent]
    rfl
  onward := by
    intro text message rest ran more
    obtain ⟨⟨lines, behind⟩, read, ran⟩ := Option.bind_eq_some_iff.mp ran
    obtain ⟨statusLine, first, ran⟩ := Option.bind_eq_some_iff.mp ran
    obtain ⟨headers, cut, ran⟩ := Option.bind_eq_some_iff.mp ran
    obtain ⟨size, announced, ran⟩ := Option.bind_eq_some_iff.mp ran
    split at ran
    · rename_i enough
      cases ran
      have longer : size ≤ (behind ++ more).length := by
        rw [List.length_append]
        omega
      simp only [readResponse, readLines_onward text read more, first, cut, announced, bind,
        Option.bind, if_pos longer, List.take_append_of_le_length enough,
        List.drop_append_of_le_length enough]
    · cases ran

end LiteWebServer
