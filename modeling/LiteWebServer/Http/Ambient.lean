import LiteWebServer.Http.Cuts

namespace LiteWebServer

open Data

namespace HttpRequest

/-! What `parse` inherits from earlier work: the version text a reset leaves behind,
which it only ever overwrites, an `errno` of `ERANGE`, which it takes for a failed
conversion, and whatever lies in the buffer behind the received bytes. -/

def withVer (req : HttpRequest) (httpVer : Bytes) : HttpRequest := { req with httpVer }

/-- Two requests that differ in the version text at most. -/
structure SaysSame (left right : HttpRequest) : Prop where
  state : left.state = right.state
  isBadReq : left.isBadReq = right.isBadReq
  method : left.method = right.method
  path : left.path = right.path
  param : left.param = right.param
  headers : left.headers = right.headers
  body : left.body = right.body

variable {req : HttpRequest} {rest : Bytes} {errno : Errno} {version : Bytes}

theorem withVer_saysSame : (req.withVer version).SaysSame req := ⟨rfl, rfl, rfl, rfl, rfl, rfl, rfl⟩

theorem SaysSame.symm {left right : HttpRequest} (same : left.SaysSame right) :
    right.SaysSame left :=
  ⟨same.state.symm, same.isBadReq.symm, same.method.symm, same.path.symm, same.param.symm,
    same.headers.symm, same.body.symm⟩

theorem SaysSame.trans {left middle right : HttpRequest} (first : left.SaysSame middle)
    (second : middle.SaysSame right) : left.SaysSame right :=
  ⟨first.state.trans second.state, first.isBadReq.trans second.isBadReq,
    first.method.trans second.method, first.path.trans second.path,
    first.param.trans second.param, first.headers.trans second.headers,
    first.body.trans second.body⟩

@[simp] theorem withVer_method : (req.withVer version).method = req.method := rfl

@[simp] theorem withVer_headers : (req.withVer version).headers = req.headers := rfl

theorem InHead.withVer (head : req.InHead) : (req.withVer version).InHead := head

theorem takeUri_withVer (req : HttpRequest) (version uri : Bytes) :
    (req.withVer version).takeUri uri = ((req.takeUri uri).1.withVer version, (req.takeUri uri).2) := by
  unfold takeUri
  split
  · split <;> rfl
  · dsimp only
    split
    · rfl
    · split <;> rfl

theorem takeReqLine_withVer (req : HttpRequest) (version line : Bytes) :
    ∃ version', (req.withVer version).takeReqLine line = (req.takeReqLine line).withVer version' := by
  have target (method : HttpMethod) (uri : Bytes) :
      { req.withVer version with method }.takeUri uri =
        (({ req with method }.takeUri uri).1.withVer version, ({ req with method }.takeUri uri).2) :=
    takeUri_withVer { req with method } version uri
  unfold takeReqLine
  split
  · exact ⟨version, rfl⟩
  · dsimp only
    split
    · exact ⟨version, rfl⟩
    · split
      · exact ⟨version, rfl⟩
      · rw [target]
        split
        · exact ⟨version, rfl⟩
        · split
          · exact ⟨version, rfl⟩
          · exact ⟨_, rfl⟩

theorem takeLine_withVer (req : HttpRequest) (version line : Bytes) :
    ∃ version', (req.withVer version).takeLine line = (req.takeLine line).withVer version' := by
  unfold takeLine
  by_cases reqLine : req.state = .parseReqLine
  · rw [if_pos reqLine, if_pos (by exact reqLine)]
    exact takeReqLine_withVer req version line
  · rw [if_neg reqLine, if_neg (by exact reqLine)]
    refine ⟨version, ?_⟩
    unfold takeHeader
    split
    · rfl
    · split <;> rfl

theorem feedBody_withVer (errno : Errno) (req : HttpRequest) (version rest : Bytes) :
    (req.withVer version).feedBody errno rest =
      ((req.feedBody errno rest).1.withVer version, (req.feedBody errno rest).2) := by
  cases method : req.method with
  | post =>
      cases lookup : req.headers.lookup (bytes "Content-Length") with
      | none => simp only [feedBody, withVer_method, method, withVer_headers, lookup]; rfl
      | some value =>
          simp only [feedBody, withVer_method, method, withVer_headers, lookup]
          split
          · rfl
          · split <;> rfl
  | _ =>
      simp only [feedBody, withVer_method, method]
      rfl

/-- The version the request had before only shows as the version it has after. -/
theorem feed_withVer (errno : Errno) (req : HttpRequest) (rest : Bytes) (version : Bytes) :
    ∃ version', (req.withVer version).feed errno rest =
      ((req.feed errno rest).1.withVer version', (req.feed errno rest).2) := by
  induction req, rest using feed_induction generalizing version with
  | success req rest done =>
      rw [feed_success done, feed_success (by exact done)]
      exact ⟨version, rfl⟩
  | body req rest inBody =>
      rw [feed_body inBody, feed_body (by exact inBody), feedBody_withVer]
      exact ⟨version, rfl⟩
  | noLine req rest head absent =>
      rw [feed_no_line head absent, feed_no_line head.withVer absent]
      exact ⟨version, rfl⟩
  | lastLine req rest lineEnd head found last =>
      obtain ⟨version', line⟩ := takeLine_withVer req version (rest.take lineEnd)
      rw [feed_line head found, feed_line head.withVer found, line, if_pos last,
        if_pos (by exact last)]
      exact ⟨version', rfl⟩
  | line req rest lineEnd head found notLast ih =>
      obtain ⟨version', line⟩ := takeLine_withVer req version (rest.take lineEnd)
      obtain ⟨version'', next⟩ := ih version'
      rw [feed_line head found, feed_line head.withVer found, line, if_neg notLast,
        if_neg (by exact notLast), next]
      exact ⟨version'', rfl⟩

/-! ## `ERANGE` -/

/-- No good request has come out of a conversion: the head is unfinished, the request
is bad, or its method or headers call for none. -/
def Unconverted (req : HttpRequest) : Prop :=
  req.InHead ∨ req.isBadReq = true ∨ req.method ≠ .post ∨
    req.headers.lookup (bytes "Content-Length") = none

instance (req : HttpRequest) : Decidable req.Unconverted :=
  inferInstanceAs (Decidable (req.InHead ∨ req.isBadReq = true ∨ req.method ≠ .post ∨
    req.headers.lookup (bytes "Content-Length") = none))

theorem strToInum_erange (value : Bytes) :
    ∃ errno, strToInum strtoul .erange value = (none, errno) := by
  unfold strToInum strtoul
  dsimp only
  split
  · split
    · exact ⟨_, rfl⟩
    · rw [if_pos rfl]
      exact ⟨_, rfl⟩
  · split
    · split
      · exact ⟨_, rfl⟩
      · rw [if_pos rfl]
        exact ⟨_, rfl⟩
    · split
      · split
        · exact ⟨_, rfl⟩
        · rw [if_pos rfl]
          exact ⟨_, rfl⟩
      · split
        · exact ⟨_, rfl⟩
        · rw [if_pos rfl]
          exact ⟨_, rfl⟩

theorem takeBody_converted {value : Bytes} {len : Nat} (fits : req.Fits)
    (inBody : req.state = .parseBody) (post : req.method = .post)
    (lookup : req.headers.lookup (bytes "Content-Length") = some value) :
    ¬ (req.takeBody len rest).Unconverted := by
  have good : req.isBadReq ≠ true := fun bad => by simpa [inBody] using fits.bad bad
  intro either
  rcases either with head | bad | method | headers
  · unfold takeBody at head
    rcases head with state | state
    · dsimp only at state
      split at state <;> simp_all
    · dsimp only at state
      split at state <;> simp_all
  · exact good bad
  · exact method post
  · exact absurd (lookup.symm.trans headers) (by simp)

/-- Under `ERANGE` a request that no conversion is due for is read as ever. -/
theorem feed_erange (req : HttpRequest) (rest : Bytes) (fits : req.Fits)
    (unconverted : (req.consume rest).1.Unconverted) :
    ((req.feed .erange rest).1, (req.feed .erange rest).2.1) = req.consume rest := by
  induction req, rest using feed_induction with
  | success req rest done => rw [feed_success done, consume_success done]
  | body req rest inBody =>
      rcases feed_body_cases inBody with ⟨next, done, ends⟩ | ⟨post, value, lookup⟩
      · rw [consume, ends, ends]
      · by_cases empty : rest = []
        · subst rest
          rw [feed_body inBody, consume_body_nil inBody post lookup]
          simp only [feedBody, post, lookup, if_true]
        · obtain ⟨errno, failed⟩ := strToInum_erange value
          cases converted : contentLength value with
          | none =>
              rw [consume_body_bad inBody post lookup empty converted, feed_body inBody,
                feedBody_post _ post lookup empty, failed]
          | some len =>
              have bound := fits.body inBody value len lookup converted
              rw [consume_body_good inBody post lookup empty converted bound] at unconverted
              exact absurd unconverted (takeBody_converted fits inBody post lookup)
  | noLine req rest head absent => rw [feed_no_line head absent, consume_no_line head absent]
  | lastLine req rest lineEnd head found last =>
      rw [consume_last_line head found last, feed_line head found, if_pos last]
  | line req rest lineEnd head found notLast ih =>
      rw [consume_line head found notLast] at unconverted
      rw [consume_line head found notLast, feed_line head found, if_neg notLast,
        ← ih (fits.takeLine head _) unconverted]

theorem Coherent.withVer (coherent : req.Coherent) : (req.withVer version).Coherent where
  bad := coherent.bad
  head := coherent.head
  body := coherent.body
  waiting := coherent.waiting

/-- One call of `parse`, whatever version the request had before, under an `errno`
that no conversion meets as `ERANGE`. -/
theorem Coherent.parse_ambient (coherent : req.Coherent) (errno : Errno) (version : Bytes)
    {data : Bytes} (short : data.length < 2 ^ 32) (startIdx : Nat)
    (noRange : errno = .erange →
      req.parseComplete = true ∨ (req.consume (data.drop startIdx)).1.Unconverted) :
    ∃ version' after, (req.withVer version).parse errno data startIdx =
      .ok ((req.consume (data.drop startIdx)).1.withVer version',
        (req.consume (data.drop startIdx)).2, after) := by
  have read : ((req.feed errno (data.drop startIdx)).1, (req.feed errno (data.drop startIdx)).2.1) =
      req.consume (data.drop startIdx) := by
    by_cases range : errno = .erange
    · rcases noRange range with complete | unconverted
      · have done : req.state = .parseSuccess := by simpa [parseComplete] using complete
        rw [feed_success done, consume_success done]
      · rw [range]
        exact feed_erange req _ coherent.toFits unconverted
    · exact feed_errno range req _
  obtain ⟨version', fed⟩ := feed_withVer errno req (data.drop startIdx) version
  refine ⟨version', (req.feed errno (data.drop startIdx)).2.2, ?_⟩
  rw [coherent.withVer.parse_eq_feed errno short, fed, ← read]

/-! ## Bytes behind the received ones -/

theorem consume_done (req : HttpRequest) (rest : Bytes) (fits : req.Fits) :
    (req.consume rest).1.consume (rest.drop (req.consume rest).2) = ((req.consume rest).1, 0) := by
  have again := consume_resumes req rest [] fits
  rw [List.append_nil, List.append_nil] at again
  have state := congrArg Prod.fst again
  have count := congrArg Prod.snd again
  dsimp only at state count
  rw [Prod.ext_iff]
  exact ⟨state.symm, by omega⟩

theorem find?_of_consume_idle (head : req.InHead) (idle : req.consume rest = (req, 0)) :
    find? crlf rest = none := by
  cases found : find? crlf rest with
  | none => rfl
  | some lineEnd =>
      by_cases last : (req.takeLine (rest.take lineEnd)).state = .parseSuccess
      · rw [consume_last_line head found last, Prod.mk.injEq] at idle
        rw [idle.1] at last
        exact absurd last head.ne_success
      · rw [consume_line head found last, Prod.mk.injEq] at idle
        omega

/-- Bytes behind the received ones change nothing when there are none, when the
request is complete without them, or when the head is unfinished and they do
not complete a line. -/
theorem consume_tail (received tail : Bytes)
    (settled : tail = [] ∨ (fresh.consume received).1.parseComplete = true ∨
      ((fresh.consume received).1.InHead ∧
        ¬ crlf <:+: (received ++ tail).drop (received.length - 1))) :
    fresh.consume (received ++ tail) = fresh.consume received := by
  have whole := consume_resumes fresh received tail fresh_coherent.toFits
  have done := consume_done fresh received fresh_coherent.toFits
  have bound := consume_bound fresh received
  rcases settled with empty | complete | ⟨head, quiet⟩
  · rw [empty, List.append_nil]
  · have success : (fresh.consume received).1.state = .parseSuccess := by
      simpa [parseComplete] using complete
    rw [whole, consume_success success, Nat.add_zero]
  · have absent := find?_of_consume_idle head done
    have noLine : find? crlf (received.drop (fresh.consume received).2 ++ tail) = none := by
      cases found : find? crlf (received.drop (fresh.consume received).2 ++ tail) with
      | none => rfl
      | some k =>
          have beyond := find?_append_of_none absent found
          obtain ⟨occurs, _⟩ := find?_occurs found
          rw [← List.drop_append_of_le_length bound, List.drop_drop] at occurs
          have width : crlf.length = 2 := rfl
          rw [List.length_drop] at beyond
          have later : (fresh.consume received).2 + k =
              received.length - 1 + ((fresh.consume received).2 + k - (received.length - 1)) := by
            omega
          rw [later, ← List.drop_drop] at occurs
          exact absurd (occurs.isInfix.trans (List.drop_suffix _ _).isInfix) quiet
    rw [whole, consume_no_line head noLine, Nat.add_zero]

end HttpRequest

end LiteWebServer
