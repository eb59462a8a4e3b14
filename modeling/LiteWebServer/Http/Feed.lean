import LiteWebServer.Http.Lines

namespace LiteWebServer

open Data

namespace HttpRequest

/-! `parse` as a function of the bytes that are still to be read.  `feed` takes
one unit at a time: a whole line while the head is open, then whatever belongs
to the body. -/

def takeLine (req : HttpRequest) (line : Bytes) : HttpRequest :=
  if req.state = .parseReqLine then req.takeReqLine line else req.takeHeader line

def takeBody (req : HttpRequest) (contentLen : Nat) (rest : Bytes) : HttpRequest :=
  let body := req.body ++ rest.take (sizeSub contentLen req.body.length)
  { req with body, state := if body.length = contentLen then .parseSuccess else req.state }

def feedBody (errno : Errno) (req : HttpRequest) (rest : Bytes) : HttpRequest × Nat × Errno :=
  match req.method with
  | .get => ({ req with state := .parseSuccess }, 0, errno)
  | .post =>
      match req.headers.lookup (bytes "Content-Length") with
      | none => ({ req with state := .parseSuccess }, 0, errno)
      | some value =>
          if rest = [] then (req, 0, errno)
          else
            match strToInum strtoul errno value with
            | (none, errno) => (req.setBadReq, 0, errno)
            | (some contentLen, errno) =>
                (req.takeBody contentLen rest,
                  min (sizeSub contentLen req.body.length) rest.length, errno)
  | _ => (req.setBadReq, 0, errno)

def feed (errno : Errno) (req : HttpRequest) (rest : Bytes) : HttpRequest × Nat × Errno :=
  if req.state = .parseSuccess then (req, 0, errno)
  else if req.state = .parseBody then req.feedBody errno rest
  else
    match found : find? crlf rest with
    | none => (req, 0, errno)
    | some lineEnd =>
        let next := req.takeLine (rest.take lineEnd)
        if next.state = .parseSuccess then (next, 0, errno)
        else
          let tail := next.feed errno (rest.drop (lineEnd + 2))
          (tail.1, lineEnd + 2 + tail.2.1, tail.2.2)
termination_by rest.length
decreasing_by
  have bound := find?_bound found
  rw [List.length_drop]
  change lineEnd + 2 ≤ rest.length at bound
  omega

variable {errno : Errno} {req : HttpRequest} {rest : Bytes}

theorem feed_success (done : req.state = .parseSuccess) : req.feed errno rest = (req, 0, errno) := by
  rw [feed, if_pos done]

theorem feed_body (body : req.state = .parseBody) :
    req.feed errno rest = req.feedBody errno rest := by
  rw [feed, if_neg (by simp [body]), if_pos body]

/-- Which states still read lines. -/
def InHead (req : HttpRequest) : Prop := req.state = .parseReqLine ∨ req.state = .parseReqHeader

instance (req : HttpRequest) : Decidable req.InHead :=
  inferInstanceAs (Decidable (req.state = .parseReqLine ∨ req.state = .parseReqHeader))

theorem InHead.ne_success (head : req.InHead) : req.state ≠ .parseSuccess := by
  rcases head with state | state <;> simp [state]

theorem InHead.ne_body (head : req.InHead) : req.state ≠ .parseBody := by
  rcases head with state | state <;> simp [state]

theorem inHead_of_ne (notDone : req.state ≠ .parseSuccess) (notBody : req.state ≠ .parseBody) :
    req.InHead := by
  cases state : req.state <;> simp_all [InHead]

theorem feed_no_line (head : req.InHead) (absent : find? crlf rest = none) :
    req.feed errno rest = (req, 0, errno) := by
  rw [feed, if_neg head.ne_success, if_neg head.ne_body]
  split
  · rfl
  · simp_all

theorem feed_line (head : req.InHead) {lineEnd : Nat} (found : find? crlf rest = some lineEnd) :
    req.feed errno rest =
      if (req.takeLine (rest.take lineEnd)).state = .parseSuccess then
        (req.takeLine (rest.take lineEnd), 0, errno)
      else
        (((req.takeLine (rest.take lineEnd)).feed errno (rest.drop (lineEnd + 2))).1,
          lineEnd + 2 + ((req.takeLine (rest.take lineEnd)).feed errno (rest.drop (lineEnd + 2))).2.1,
          ((req.takeLine (rest.take lineEnd)).feed errno (rest.drop (lineEnd + 2))).2.2) := by
  rw [feed, if_neg head.ne_success, if_neg head.ne_body]
  split
  · simp_all
  · rename_i index foundIndex
    rw [found, Option.some.injEq] at foundIndex
    subst index
    rfl

/-- The induction that follows the units `feed` takes: nothing left to do, the
body, an unfinished line, a line that ends the request, a line that does not. -/
theorem feed_induction {motive : HttpRequest → Bytes → Prop}
    (success : ∀ req rest, req.state = .parseSuccess → motive req rest)
    (body : ∀ req rest, req.state = .parseBody → motive req rest)
    (noLine : ∀ req rest, req.InHead → find? crlf rest = none → motive req rest)
    (lastLine : ∀ req rest lineEnd, req.InHead → find? crlf rest = some lineEnd →
      (req.takeLine (rest.take lineEnd)).state = .parseSuccess → motive req rest)
    (line : ∀ req rest lineEnd, req.InHead → find? crlf rest = some lineEnd →
      (req.takeLine (rest.take lineEnd)).state ≠ .parseSuccess →
      motive (req.takeLine (rest.take lineEnd)) (rest.drop (lineEnd + 2)) → motive req rest)
    (req : HttpRequest) (rest : Bytes) : motive req rest := by
  by_cases done : req.state = .parseSuccess
  · exact success req rest done
  · by_cases inBody : req.state = .parseBody
    · exact body req rest inBody
    · have head := inHead_of_ne done inBody
      cases found : find? crlf rest with
      | none => exact noLine req rest head found
      | some lineEnd =>
          have bound := find?_bound found
          change lineEnd + 2 ≤ rest.length at bound
          by_cases last : (req.takeLine (rest.take lineEnd)).state = .parseSuccess
          · exact lastLine req rest lineEnd head found last
          · exact line req rest lineEnd head found last
              (feed_induction success body noLine lastLine line _ _)
termination_by rest.length
decreasing_by
  rw [List.length_drop]
  omega

theorem feedBody_bound : (req.feedBody errno rest).2.1 ≤ rest.length := by
  unfold feedBody
  split
  · exact Nat.zero_le _
  · split
    · exact Nat.zero_le _
    · split
      · exact Nat.zero_le _
      · split
        · exact Nat.zero_le _
        · exact Nat.min_le_right _ _
  · exact Nat.zero_le _

theorem feed_bound (errno : Errno) (req : HttpRequest) (rest : Bytes) :
    (req.feed errno rest).2.1 ≤ rest.length := by
  induction req, rest using feed_induction with
  | success req rest done => rw [feed_success done]; exact Nat.zero_le _
  | body req rest inBody => rw [feed_body inBody]; exact feedBody_bound
  | noLine req rest head absent => rw [feed_no_line head absent]; exact Nat.zero_le _
  | lastLine req rest lineEnd head found last =>
      rw [feed_line head found, if_pos last]
      exact Nat.zero_le _
  | line req rest lineEnd head found more ih =>
      have bound := find?_bound found
      change lineEnd + 2 ≤ rest.length at bound
      rw [List.length_drop] at ih
      rw [feed_line head found, if_neg more]
      dsimp only
      omega

/-! ## The offset code is `feed` -/

theorem takeReqLine_state (req : HttpRequest) (line : Bytes) :
    (req.takeReqLine line).state = .parseSuccess ∨ (req.takeReqLine line).state = .parseReqHeader := by
  unfold takeReqLine
  split
  · exact .inl rfl
  · dsimp only
    split
    · exact .inl rfl
    · split
      · exact .inl rfl
      · split
        · exact .inl rfl
        · split
          · exact .inl rfl
          · exact .inr rfl

theorem takeLine_header (header : req.state = .parseReqHeader) (line : Bytes) :
    req.takeLine line = req.takeHeader line := by
  rw [takeLine, if_neg (by simp [header])]

theorem takeLine_reqLine (reqLine : req.state = .parseReqLine) (line : Bytes) :
    req.takeLine line = req.takeReqLine line := by
  rw [takeLine, if_pos reqLine]

theorem parseReqBody_eq {data : Bytes} {startIdx : Nat} (short : data.length < 2 ^ 32)
    (inside : startIdx ≤ data.length) :
    req.parseReqBody errno data startIdx = .ok (req.feedBody errno (data.drop startIdx)) := by
  have width : (data.drop startIdx).length = data.length - startIdx := List.length_drop
  cases method : req.method with
  | post =>
      cases lookup : req.headers.lookup (bytes "Content-Length") with
      | none => simp only [parseReqBody, feedBody, method, lookup]
      | some value =>
          simp only [parseReqBody, feedBody, method, lookup]
          by_cases atEnd : data.length ≤ startIdx
          · rw [if_pos atEnd, if_pos (List.length_eq_zero_iff.mp (by omega))]
          · have nonempty : data.drop startIdx ≠ [] := by
              intro empty
              rw [empty, List.length_nil] at width
              omega
            rw [if_neg atEnd, if_neg nonempty]
            obtain ⟨converted, errno'⟩ := strToInum strtoul errno value
            cases converted with
            | none => rfl
            | some contentLen =>
                have amount : (if data.length - startIdx < sizeSub contentLen req.body.length then
                    data.length - startIdx else sizeSub contentLen req.body.length) =
                    min (sizeSub contentLen req.body.length) (data.length - startIdx) := by
                  split <;> omega
                have chunk : (data.drop startIdx).take
                    (min (sizeSub contentLen req.body.length) (data.length - startIdx)) =
                    (data.drop startIdx).take (sizeSub contentLen req.body.length) := by
                  rw [← width, ← List.take_take, List.take_length]
                simp only [amount, substr, if_pos inside, bind, Except.bind, chunk, takeBody, width,
                  method]
                rw [u32_of_lt (by omega)]
                split <;> rfl
  | _ => simp only [parseReqBody, feedBody, method]

theorem parseReqLine_eq {data : Bytes} {startIdx : Nat} (inside : startIdx ≤ data.length) :
    req.parseReqLine data startIdx = .ok
      (match find? crlf (data.drop startIdx) with
        | none => (req, 0)
        | some k => (req.takeReqLine ((data.drop startIdx).take k),
            if (req.takeReqLine ((data.drop startIdx).take k)).state = .parseSuccess then 0
            else u32 (((data.drop startIdx).take k).length + 2))) := by
  rw [parseReqLine, findFrom_of_le inside]
  cases find? crlf (data.drop startIdx) with
  | none => rfl
  | some k => simp only [Option.map_some, substr_found inside, bind, Except.bind, parseLine_eq]

theorem takeHeader_of_line {line : Bytes} (nonempty : line ≠ []) :
    req.takeHeader line =
      match splitKeyVal line (bytes ": ") with
      | none => req.setBadReq
      | some (key, val) => { req with headers := req.headers.emplace key val } :=
  if_neg nonempty

/-- The header loop stops at an unfinished line, after a bad one, or behind the
empty line; what `feed` makes of the same bytes differs from it only by the body
phase that follows. -/
theorem parseHeaderLines_eq (errno : Errno) {data : Bytes} (startIdx : Nat)
    (short : data.length < 2 ^ 32) (fuel : Nat) (req : HttpRequest) (parsedBytes : Nat)
    (header : req.state = .parseReqHeader) (inside : startIdx + parsedBytes ≤ data.length)
    (enough : data.length - (startIdx + parsedBytes) < fuel) :
    ∃ next n, parseHeaderLines fuel req data startIdx parsedBytes = .ok (next, parsedBytes + n) ∧
      startIdx + (parsedBytes + n) ≤ data.length ∧
      req.feed errno (data.drop (startIdx + parsedBytes)) =
        (if next.state = .parseBody then
          ((next.feedBody errno (data.drop (startIdx + (parsedBytes + n)))).1,
            n + (next.feedBody errno (data.drop (startIdx + (parsedBytes + n)))).2.1,
            (next.feedBody errno (data.drop (startIdx + (parsedBytes + n)))).2.2)
        else (next, n, errno)) ∧
      next.state ≠ .parseReqLine := by
  induction fuel generalizing req parsedBytes with
  | zero => omega
  | succ fuel ih =>
      have head : req.InHead := .inr header
      have offset : u32 (startIdx + parsedBytes) = startIdx + parsedBytes := u32_of_lt (by omega)
      have width : (data.drop (startIdx + parsedBytes)).length =
          data.length - (startIdx + parsedBytes) := List.length_drop
      rw [parseHeaderLines, offset, strGetFirstToken_eq inside]
      cases found : find? crlf (data.drop (startIdx + parsedBytes)) with
      | none =>
          refine ⟨req, 0, rfl, inside, ?_, by simp [header]⟩
          rw [feed_no_line head found, if_neg (by simp [header])]
      | some k =>
          have bound := find?_bound found
          change k + 2 ≤ _ at bound
          rw [width] at bound
          rw [feed_line head found, takeLine_header header]
          simp only [Option.map_some, bind, Except.bind]
          have taken : ((data.drop (startIdx + parsedBytes)).take k).length = k := by
            rw [List.length_take]
            omega
          generalize lineIs : (data.drop (startIdx + parsedBytes)).take k = line at taken ⊢
          by_cases empty : line = []
          · have zero : k = 0 := by rw [← taken, empty]; rfl
            subst zero
            rw [if_pos empty, takeHeader, if_pos empty]
            refine ⟨{ req with state := .parseBody }, 2, ?_, by omega, ?_, by simp⟩
            · rw [u32_of_lt (by omega)]; rfl
            · rw [if_neg (by simp), feed_body rfl, if_pos rfl, List.drop_drop]
              rfl
          · rw [if_neg empty, takeHeader_of_line empty, strGetKeyVal_eq]
            cases pair : splitKeyVal line (bytes ": ") with
            | none =>
                refine ⟨req.setBadReq, 0, rfl, inside, ?_, by simp [setBadReq]⟩
                dsimp only
                rw [if_pos (setBadReq_state req), if_neg (by simp [setBadReq])]
            | some keyVal =>
                have step : u32 (parsedBytes + (line.length + 2)) = parsedBytes + (k + 2) := by
                  rw [taken, u32_of_lt (by omega)]
                simp only [Bool.not_true, Bool.false_eq_true, if_false, step]
                obtain ⟨next, n, loop, within, result, notLine⟩ :=
                  ih { req with headers := req.headers.emplace keyVal.1 keyVal.2 }
                    (parsedBytes + (k + 2)) header (by omega) (by omega)
                refine ⟨next, k + 2 + n, ?_, by omega, ?_, notLine⟩
                · rw [loop, Nat.add_assoc]
                · rw [if_neg (by simp [header]), List.drop_drop, Nat.add_assoc startIdx]
                  rw [result, Nat.add_assoc parsedBytes]
                  split
                  · simp only [Nat.add_assoc]
                  · rfl

theorem parseReqHeader_eq (errno : Errno) {data : Bytes} {startIdx : Nat}
    (short : data.length < 2 ^ 32) (header : req.state = .parseReqHeader)
    (inside : startIdx ≤ data.length) :
    ∃ next n, req.parseReqHeader data startIdx = .ok (next, n) ∧ startIdx + n ≤ data.length ∧
      req.feed errno (data.drop startIdx) =
        (if next.state = .parseBody then
          ((next.feedBody errno (data.drop (startIdx + n))).1,
            n + (next.feedBody errno (data.drop (startIdx + n))).2.1,
            (next.feedBody errno (data.drop (startIdx + n))).2.2)
        else (next, n, errno)) := by
  obtain ⟨next, n, loop, within, result, _⟩ :=
    parseHeaderLines_eq errno startIdx short (data.length + 1) req 0 header
      (by omega) (by omega)
  simp only [Nat.zero_add, Nat.add_zero] at loop within result
  exact ⟨next, n, loop, within, result⟩

theorem parseAfterLine_eq {data : Bytes} {startIdx : Nat} (parsedBytes : Nat)
    (short : data.length < 2 ^ 32) (lineDone : req.state ≠ .parseReqLine)
    (inside : startIdx + parsedBytes ≤ data.length) :
    req.parseAfterLine errno data startIdx parsedBytes =
      .ok ((req.feed errno (data.drop (startIdx + parsedBytes))).1,
        parsedBytes + (req.feed errno (data.drop (startIdx + parsedBytes))).2.1,
        (req.feed errno (data.drop (startIdx + parsedBytes))).2.2) := by
  have feedBound (req : HttpRequest) (offset : Nat) :
      (req.feedBody errno (data.drop offset)).2.1 ≤ data.length - offset := by
    rw [← List.length_drop]
    exact feedBody_bound
  have start : u32 (startIdx + parsedBytes) = startIdx + parsedBytes := u32_of_lt (by omega)
  cases state : req.state with
  | parseReqLine => exact absurd state lineDone
  | parseSuccess =>
      rw [feed_success state]
      simp [parseAfterLine, state, bind, Except.bind, pure, Except.pure]
  | parseBody =>
      have small : parsedBytes + (req.feedBody errno (data.drop (startIdx + parsedBytes))).2.1 <
          2 ^ 32 := by
        have bound := feedBound req (startIdx + parsedBytes)
        omega
      rw [feed_body state]
      simp only [parseAfterLine, state, reduceCtorEq, if_false, if_true, pure, Except.pure, bind,
        Except.bind, start, parseReqBody_eq short inside]
      rw [u32_of_lt small]
  | parseReqHeader =>
      obtain ⟨next, n, loop, within, result⟩ := parseReqHeader_eq errno short state inside
      have total : u32 (parsedBytes + n) = parsedBytes + n := u32_of_lt (by omega)
      have offset : u32 (startIdx + (parsedBytes + n)) = startIdx + parsedBytes + n := by
        rw [← Nat.add_assoc, u32_of_lt (by omega)]
      rw [result]
      simp only [parseAfterLine, state, if_true, start, loop, bind, Except.bind, pure,
        Except.pure, total, offset]
      by_cases body : next.state = .parseBody
      · have small : parsedBytes + n +
            (next.feedBody errno (data.drop (startIdx + parsedBytes + n))).2.1 < 2 ^ 32 := by
          have bound := feedBound next (startIdx + parsedBytes + n)
          omega
        simp only [if_pos body, parseReqBody_eq short within]
        rw [u32_of_lt small, Nat.add_assoc parsedBytes]
      · simp only [if_neg body]

/-- One call of `parse` on any state: no fault, and what it does depends on the
bytes from `startIdx` on only. -/
theorem parse_eq_feed {data : Bytes} (short : data.length < 2 ^ 32) (startIdx : Nat) :
    req.parse errno data startIdx = .ok
      (if data.length ≤ startIdx then (req, 0, errno) else req.feed errno (data.drop startIdx)) := by
  by_cases atEnd : data.length ≤ startIdx
  · rw [parse, if_pos (.inr atEnd), if_pos atEnd]
  · have inside : startIdx ≤ data.length := by omega
    rw [if_neg atEnd]
    by_cases done : req.state = .parseSuccess
    · rw [parse, if_pos (.inl done), feed_success done]
    · rw [parse, if_neg (by simp [done, atEnd])]
      by_cases reqLine : req.state = .parseReqLine
      · have head : req.InHead := .inl reqLine
        simp only [if_pos reqLine, parseReqLine_eq inside, bind, Except.bind]
        cases found : find? crlf (data.drop startIdx) with
        | none =>
            rw [feed_no_line head found]
            simp [parseAfterLine, reqLine, bind, Except.bind, pure, Except.pure]
        | some k =>
            have bound := find?_bound found
            change k + 2 ≤ (data.drop startIdx).length at bound
            rw [List.length_drop] at bound
            have taken : ((data.drop startIdx).take k).length = k := by
              rw [List.length_take, List.length_drop]
              omega
            rw [feed_line head found, takeLine_reqLine reqLine]
            have after := takeReqLine_state req ((data.drop startIdx).take k)
            simp only [taken]
            generalize req.takeReqLine ((data.drop startIdx).take k) = next at after ⊢
            have nextLine : next.state ≠ .parseReqLine := by
              rcases after with last | header <;> simp [*]
            by_cases last : next.state = .parseSuccess
            · rw [if_pos last, if_pos last, parseAfterLine_eq _ short nextLine (by omega),
                feed_success last, Nat.zero_add]
            · rw [if_neg last, if_neg last, u32_of_lt (by omega),
                parseAfterLine_eq _ short nextLine (by omega), List.drop_drop]
      · simp only [if_neg reqLine, pure, Except.pure, bind, Except.bind]
        rw [parseAfterLine_eq 0 short reqLine inside, Nat.zero_add, Nat.add_zero]

end HttpRequest

end LiteWebServer
