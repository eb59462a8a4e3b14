import LiteWebServer.Http.Errno

namespace LiteWebServer

open Data

namespace HttpRequest

/-! The calls of `parse` that hand one request its bytes. -/

/-- The call has a length to read, and would read it under `ERANGE`. -/
def ReadsStale (call : Errno × ParseCall) : Prop :=
  call.1 = .erange ∧ call.2.req.conversion? call.2.data call.2.startIdx ≠ none

/-- The calls so far with the `errno` they are entered under, the latest one first, the
request after them, the bytes it was handed and how many of them are parsed.  A call sees
some more bytes, from the first one on that is not parsed yet; of the parsed ones the
caller may have dropped any number. -/
inductive Fed : List (Errno × ParseCall) → HttpRequest → Bytes → Nat → Prop where
  | start (httpVer : Bytes) : Fed [] (fresh.withVer httpVer) [] 0
  | call {calls : List (Errno × ParseCall)} {req next : HttpRequest} {received chunk : Bytes}
      {parsed dropped n : Nat} {errno after : Errno} :
      Fed calls req received parsed → dropped ≤ parsed →
      ((received ++ chunk).drop dropped).length < 2 ^ 32 →
      req.parse errno ((received ++ chunk).drop dropped) (parsed - dropped) = .ok (next, n, after) →
      Fed ((errno, ⟨req, (received ++ chunk).drop dropped, parsed - dropped⟩) :: calls) next
        (received ++ chunk) (parsed + n)

variable {calls : List (Errno × ParseCall)} {req next : HttpRequest} {received data : Bytes}
  {parsed startIdx n : Nat} {errno after : Errno}

/-- A call that reads no length under `ERANGE` might as well be entered under another
`errno`. -/
theorem parse_not_stale (clean : ¬ ReadsStale (errno, ⟨req, data, startIdx⟩))
    (ran : req.parse errno data startIdx = .ok (next, n, after)) :
    ∃ errno' after', errno' ≠ .erange ∧ req.parse errno' data startIdx = .ok (next, n, after') := by
  by_cases range : errno = .erange
  · have unread : req.conversion? data startIdx = none := by
      by_contra read
      exact clean ⟨range, read⟩
    rw [parse_unconverted unread] at ran
    cases alone : req.parse .clear data startIdx with
    | error fault => simp [alone, Except.map] at ran
    | ok result =>
        obtain ⟨next', n', after'⟩ := result
        rw [alone] at ran
        cases ran
        exact ⟨.clear, after', by simp, alone⟩
  · exact ⟨errno, after, range, ran⟩

/-- Whatever was dropped in between, the calls read as one call on all of the input. -/
theorem Fed.reads (fed : Fed calls req received parsed) (clean : ∀ call ∈ calls, ¬ ReadsStale call) :
    (∃ version, req = (fresh.consume received).1.withVer version) ∧
      parsed = (fresh.consume received).2 := by
  induction fed with
  | start httpVer =>
      have idle : fresh.consume [] = (fresh, 0) := consume_no_line (.inl rfl) rfl
      rw [idle]
      exact ⟨⟨httpVer, rfl⟩, rfl⟩
  | @call calls req next received chunk parsed dropped n errno after fed bound short ran ih =>
      obtain ⟨last, earlier⟩ := List.forall_mem_cons.mp clean
      obtain ⟨⟨version, rfl⟩, rfl⟩ := ih earlier
      have coherent := consume_coherent fresh received fresh_coherent.toFits
      have rest : ((received ++ chunk).drop dropped).drop ((fresh.consume received).2 - dropped) =
          received.drop (fresh.consume received).2 ++ chunk := by
        rw [List.drop_drop, Nat.add_sub_cancel' bound,
          List.drop_append_of_le_length (consume_bound fresh received)]
      obtain ⟨errno', after', range, ran'⟩ := parse_not_stale last ran
      obtain ⟨version', read⟩ := feed_withVer errno' (fresh.consume received).1
        (received.drop (fresh.consume received).2 ++ chunk) version
      rw [coherent.withVer.parse_eq_feed errno' short, rest, read, Except.ok.injEq] at ran'
      obtain ⟨rfl, counted⟩ := Prod.mk.inj ran'
      rw [consume_resumes fresh received chunk fresh_coherent.toFits]
      generalize received.drop (fresh.consume received).2 ++ chunk = left at counted ⊢
      generalize fresh.consume received = result at counted ⊢
      rw [← feed_errno range, counted]
      exact ⟨⟨version', rfl⟩, rfl⟩

/-- A call that does read a length under `ERANGE` refuses the request. -/
theorem Fed.stale (fed : Fed calls req received parsed) (stale : ∃ call ∈ calls, ReadsStale call) :
    req.state = .parseSuccess ∧ req.isBadReq = true ∧ req.method = .post := by
  induction fed with
  | start httpVer => simp at stale
  | call fed bound short ran ih =>
      rcases (List.exists_mem_cons_iff ..).mp stale with ⟨rfl, due⟩ | earlier
      · obtain ⟨value, read⟩ := Option.ne_none_iff_exists'.mp due
        obtain ⟨result, middle, runs, refuses, -, -, post, -⟩ := parse_converted read
        rw [runs, strToInum_stale, Except.ok.injEq] at ran
        obtain ⟨rfl, -⟩ := Prod.mk.inj ran
        rw [refuses]
        exact ⟨rfl, rfl, post⟩
      · obtain ⟨done, bad, post⟩ := ih earlier
        rw [parse_success done] at ran
        cases ran
        exact ⟨done, bad, post⟩

/-- Once there is a line, the request is on its way from that request line. -/
theorem Fed.line (fed : Fed calls req received parsed) :
    match find? crlf received with
    | none => (∃ version, req = fresh.withVer version) ∧ parsed = 0
    | some k => ∃ version, ParseSteps ((fresh.withVer version).takeReqLine (received.take k)) req := by
  induction fed with
  | start httpVer => exact ⟨⟨httpVer, rfl⟩, rfl⟩
  | @call calls req next received chunk parsed dropped n errno after fed bound short ran ih =>
      cases found : find? crlf received with
      | none =>
          rw [found] at ih
          obtain ⟨⟨version, rfl⟩, rfl⟩ := ih
          obtain rfl := Nat.le_zero.mp bound
          have first := parse_reqLine (by rfl) ran
          rw [List.drop_zero] at first
          cases now : find? crlf (received ++ chunk) with
          | none =>
              rw [now] at first
              exact ⟨⟨version, first.1⟩, by rw [first.2]⟩
          | some k =>
              rw [now] at first
              exact ⟨version, first⟩
      | some k =>
          rw [found] at ih
          obtain ⟨version, steps⟩ := ih
          have inside := find?_bound found
          rw [find?_append_of_some found]
          dsimp only
          rw [List.take_append_of_le_length (by omega)]
          exact ⟨version, steps.trans (parse_steps ran)⟩

end HttpRequest

end LiteWebServer
