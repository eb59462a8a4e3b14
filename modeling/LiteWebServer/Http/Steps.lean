import LiteWebServer.Http.Cuts
import Mathlib.Logic.Relation

namespace LiteWebServer

open Data

namespace HttpRequest

/-! What any call of `parse` can do to a request, for data of any length: lines
without a `CRLF` in them, one at a time, and then the body. -/

inductive ParseStep : HttpRequest → HttpRequest → Prop where
  | reqLine {req line} (here : req.state = .parseReqLine) (free : ¬ crlf <:+: line) :
      ParseStep req (req.takeReqLine line)
  | header {req line} (here : req.state = .parseReqHeader) (free : ¬ crlf <:+: line) :
      ParseStep req (req.takeHeader line)
  | body {req} (here : req.state = .parseBody) (body : Bytes) {state}
      (either : state = .parseBody ∨ state = .parseSuccess) :
      ParseStep req { req with body, state }
  | reject {req} (here : req.state = .parseBody) : ParseStep req req.setBadReq

abbrev ParseSteps : HttpRequest → HttpRequest → Prop := Relation.ReflTransGen ParseStep

/-- The requests that calls of `parse` and of `reset` lead to. -/
inductive Parsed : HttpRequest → Prop where
  | fresh : Parsed fresh
  | reset {req} (parsed : Parsed req) : Parsed req.reset
  | parse {req next errno after data startIdx count} (parsed : Parsed req)
      (ran : req.parse errno data startIdx = .ok (next, count, after)) : Parsed next

def parseHeadAfterLine (req : HttpRequest) (data : Bytes) (startIdx parsedBytes : Nat) :
    Except Fault (HttpRequest × Nat) :=
  if req.state = .parseReqHeader then do
    let (req, more) ← req.parseReqHeader data (u32 (startIdx + parsedBytes))
    return (req, u32 (parsedBytes + more))
  else .ok (req, parsedBytes)

/-- The first two phases of `parse`, which do not look at `errno`. -/
def parseHead (req : HttpRequest) (data : Bytes) (startIdx : Nat) : Except Fault (HttpRequest × Nat) :=
  if req.state = .parseReqLine then do
    let (req, parsedBytes) ← req.parseReqLine data startIdx
    req.parseHeadAfterLine data startIdx parsedBytes
  else req.parseHeadAfterLine data startIdx 0

variable {req next : HttpRequest} {errno after : Errno} {data : Bytes} {startIdx count : Nat}

theorem parse_eq_head (active : ¬ (req.state = .parseSuccess ∨ data.length ≤ startIdx)) :
    req.parse errno data startIdx = (do
      let (next, parsedBytes) ← req.parseHead data startIdx
      if next.state = .parseBody then do
        let (next, more, errno) ← next.parseReqBody errno data (u32 (startIdx + parsedBytes))
        return (next, u32 (parsedBytes + more), errno)
      else return (next, parsedBytes, errno)) := by
  have rest (middle : HttpRequest) (parsedBytes : Nat) :
      middle.parseAfterLine errno data startIdx parsedBytes = (do
        let (next, parsedBytes) ← middle.parseHeadAfterLine data startIdx parsedBytes
        if next.state = .parseBody then do
          let (next, more, errno) ← next.parseReqBody errno data (u32 (startIdx + parsedBytes))
          return (next, u32 (parsedBytes + more), errno)
        else return (next, parsedBytes, errno)) := by
    by_cases header : middle.state = .parseReqHeader
    · simp only [parseAfterLine, parseHeadAfterLine, if_pos header, bind, Except.bind]
      cases middle.parseReqHeader data (u32 (startIdx + parsedBytes)) <;> rfl
    · simp only [parseAfterLine, parseHeadAfterLine, if_neg header]
      rfl
  rw [parse, if_neg active, parseHead]
  by_cases line : req.state = .parseReqLine
  · simp only [if_pos line, rest, bind, Except.bind]
    cases req.parseReqLine data startIdx <;> rfl
  · simp only [if_neg line, rest]
    rfl

/-- The line in front of the delimiter does not have it inside. -/
theorem strGetFirstToken_free {delim token : Bytes} {startPos : Nat} (some : delim ≠ [])
    (ran : strGetFirstToken data delim startPos = .ok (.some token)) : ¬ delim <:+: token := by
  by_cases inside : startPos ≤ data.length
  · rw [strGetFirstToken_eq inside, Except.ok.injEq, Option.map_eq_some_iff] at ran
    obtain ⟨k, found, rfl⟩ := ran
    exact find?_before found some
  · rw [strGetFirstToken, findFrom, if_neg inside] at ran
    cases ran

theorem parseReqLine_steps (here : req.state = .parseReqLine)
    (ran : req.parseReqLine data startIdx = .ok (next, count)) : ParseSteps req next := by
  unfold parseReqLine at ran
  split at ran
  · cases ran
    exact .refl
  · rename_i lineEnd found
    by_cases inside : startIdx ≤ data.length
    · rw [findFrom_of_le inside, Option.map_eq_some_iff] at found
      obtain ⟨k, found, rfl⟩ := found
      simp only [substr_found inside, bind, Except.bind, parseLine_eq] at ran
      cases ran
      exact .single (.reqLine here (find?_before found (by decide)))
    · rw [findFrom, if_neg inside] at found
      cases found

theorem parseHeaderLines_steps (fuel : Nat) (parsedBytes : Nat) (here : req.state = .parseReqHeader)
    (ran : parseHeaderLines fuel req data startIdx parsedBytes = .ok (next, count)) :
    ParseSteps req next := by
  induction fuel generalizing req parsedBytes with
  | zero => cases ran
  | succ fuel ih =>
      obtain ⟨token, got, ran⟩ := bind_eq_ok.mp ran
      cases token with
      | none =>
          cases ran
          exact .refl
      | some line =>
          have free := strGetFirstToken_free (by decide) got
          have step : ParseStep req (req.takeHeader line) := .header here free
          dsimp only at ran
          unfold takeHeader at step
          split at ran
          · rename_i empty
            rw [if_pos empty] at step
            cases ran
            exact .single step
          · rename_i nonempty
            rw [if_neg nonempty] at step
            rw [strGetKeyVal_eq] at ran
            cases pair : splitKeyVal line (bytes ": ") with
            | none =>
                rw [pair] at ran step
                cases ran
                exact .single step
            | some keyVal =>
                rw [pair] at ran step
                exact .head step (ih _ here ran)

theorem parseReqBody_steps {more : Nat} (here : req.state = .parseBody)
    (ran : req.parseReqBody errno data startIdx = .ok (next, more, after)) : ParseSteps req next := by
  have ends : ParseSteps req { req with state := .parseSuccess } :=
    .single (.body here req.body (.inr rfl))
  unfold parseReqBody at ran
  split at ran
  · cases ran
    exact ends
  · split at ran
    · cases ran
      exact ends
    · split at ran
      · cases ran
        exact .refl
      · split at ran
        · cases ran
          exact .single (.reject here)
        · obtain ⟨chunk, got, ran⟩ := bind_eq_ok.mp ran
          cases ran
          refine .single ?_
          split
          · exact .body here _ (.inr rfl)
          · exact .body here _ (.inl here)
  · cases ran
    exact .single (.reject here)

theorem parseHeadAfterLine_steps {parsedBytes : Nat}
    (ran : req.parseHeadAfterLine data startIdx parsedBytes = .ok (next, count)) :
    ParseSteps req next := by
  unfold parseHeadAfterLine at ran
  split at ran
  · rename_i here
    obtain ⟨⟨last, more⟩, lines, same⟩ := bind_eq_ok.mp ran
    cases same
    exact parseHeaderLines_steps _ _ here lines
  · cases ran
    exact .refl

theorem parseHead_steps (ran : req.parseHead data startIdx = .ok (next, count)) :
    ParseSteps req next := by
  unfold parseHead at ran
  split at ran
  · rename_i here
    obtain ⟨⟨middle, parsedBytes⟩, line, ran⟩ := bind_eq_ok.mp ran
    exact (parseReqLine_steps here line).trans (parseHeadAfterLine_steps ran)
  · exact parseHeadAfterLine_steps ran

theorem parse_steps (ran : req.parse errno data startIdx = .ok (next, count, after)) :
    ParseSteps req next := by
  by_cases active : ¬ (req.state = .parseSuccess ∨ data.length ≤ startIdx)
  · rw [parse_eq_head active] at ran
    obtain ⟨⟨middle, parsedBytes⟩, head, ran⟩ := bind_eq_ok.mp ran
    have steps := parseHead_steps head
    dsimp only at ran
    split at ran
    · rename_i here
      obtain ⟨⟨last, more, errno'⟩, body, same⟩ := bind_eq_ok.mp ran
      cases same
      exact steps.trans (parseReqBody_steps here body)
    · cases ran
      exact steps
  · rw [parse, if_pos (not_not.mp active)] at ran
    cases ran
    exact .refl

/-- A request that waits for its request line takes the first line there is, and
without one it stays as it is. -/
theorem parse_reqLine (here : req.state = .parseReqLine)
    (ran : req.parse errno data 0 = .ok (next, count, after)) :
    match find? crlf data with
    | none => next = req ∧ count = 0
    | some k => ParseSteps (req.takeReqLine (data.take k)) next := by
  by_cases empty : data.length ≤ 0
  · rw [parse, if_pos (.inr empty)] at ran
    cases ran
    rw [List.length_eq_zero_iff.mp (Nat.le_zero.mp empty)]
    exact ⟨rfl, rfl⟩
  · have active : ¬ (req.state = .parseSuccess ∨ data.length ≤ 0) := by
      rw [here]
      exact fun either => either.elim (by simp) empty
    rw [parse_eq_head active, parseHead, if_pos here] at ran
    have line := @parseReqLine_eq req data 0 (Nat.zero_le _)
    rw [List.drop_zero] at line
    cases found : find? crlf data with
    | none =>
        rw [found] at line
        have same : (Except.ok (req, 0, errno) : Except Fault _) = .ok (next, count, after) := by
          simpa [line, bind, Except.bind, parseHeadAfterLine, here, pure, Except.pure] using ran
        cases same
        exact ⟨rfl, rfl⟩
    | some k =>
        rw [found] at line
        obtain ⟨⟨middle, parsedBytes⟩, head, ran⟩ := bind_eq_ok.mp ran
        obtain ⟨⟨taken, lineBytes⟩, same, head⟩ := bind_eq_ok.mp head
        rw [line] at same
        cases same
        have steps := parseHeadAfterLine_steps head
        dsimp only at ran
        split at ran
        · rename_i body
          obtain ⟨⟨last, more, errno'⟩, took, same⟩ := bind_eq_ok.mp ran
          cases same
          exact steps.trans (parseReqBody_steps body took)
        · cases ran
          exact steps

theorem ParseSteps.invariant (Inv : HttpRequest → Prop)
    (keeps : ∀ {req next}, Inv req → ParseStep req next → Inv next) (steps : ParseSteps req next)
    (held : Inv req) : Inv next := by
  induction steps with
  | refl => exact held
  | tail _ step ih => exact keeps ih step

/-- The invariant rule for requests. -/
theorem Parsed.invariant (Inv : HttpRequest → Prop) (fresh : Inv .fresh)
    (reset : Inv { HttpRequest.fresh with httpVer := [] })
    (keeps : ∀ {req next}, Inv req → ParseStep req next → Inv next) (parsed : Parsed req) :
    Inv req := by
  induction parsed with
  | fresh => exact fresh
  | reset _ _ => exact reset
  | parse _ ran ih => exact ParseSteps.invariant Inv keeps (parse_steps ran) ih

/-- What the request line has set. -/
structure SameLine (req other : HttpRequest) : Prop where
  method : req.method = other.method
  path : req.path = other.path
  httpVer : req.httpVer = other.httpVer

/-- Behind the request line all of it stays. -/
theorem ParseSteps.sameLine (steps : ParseSteps req next) (past : req.state ≠ .parseReqLine) :
    next.state ≠ .parseReqLine ∧ next.SameLine req := by
  refine steps.invariant (fun next => next.state ≠ .parseReqLine ∧ next.SameLine req)
    (fun {req' next'} held step => ?_) ⟨past, ⟨rfl, rfl, rfl⟩⟩
  obtain ⟨past, ⟨method, path, version⟩⟩ := held
  cases step with
  | reqLine here free => exact absurd here past
  | header here free =>
      unfold takeHeader
      split
      · exact ⟨by simp, ⟨method, path, version⟩⟩
      · split
        · exact ⟨by simp [setBadReq], ⟨method, path, version⟩⟩
        · exact ⟨past, ⟨method, path, version⟩⟩
  | body here body either =>
      exact ⟨by rcases either with rfl | rfl <;> simp, ⟨method, path, version⟩⟩
  | reject here => exact ⟨by simp [setBadReq], ⟨method, path, version⟩⟩

/-- A bad request is complete. -/
theorem ParseStep.bad (step : ParseStep req next)
    (complete : req.isBadReq = true → req.state = .parseSuccess) :
    next.isBadReq = true → next.state = .parseSuccess := by
  intro bad
  cases step with
  | reqLine here free =>
      refine (takeReqLine_isBadReq req _).elim id fun same => ?_
      simp [complete (same ▸ bad)] at here
  | header here free =>
      refine (takeHeader_isBadReq req _).elim id fun same => ?_
      simp [complete (same ▸ bad)] at here
  | body here body either =>
      simp [complete bad] at here
  | reject here => rfl

end HttpRequest

end LiteWebServer
