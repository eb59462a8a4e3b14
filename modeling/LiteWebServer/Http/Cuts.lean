import LiteWebServer.Data.Resumable
import LiteWebServer.Http.Feed

namespace LiteWebServer

open Data

/-- The number `str_to_inum` gives with `strtoul` while `errno` is not `ERANGE`. -/
def contentLength (value : Bytes) : Option Nat := (strToInum strtoul .clear value).1

theorem strToInum_of_ne_erange {errno : Errno} (clean : errno ≠ .erange) (value : Bytes) :
    (strToInum strtoul errno value).1 = contentLength value := by
  unfold contentLength strToInum strtoul
  dsimp only
  split
  · split <;> simp
  · split
    · split <;> simp
    · split
      · split <;> simp
      · split <;> simp

namespace HttpRequest

/-- `feed` under a clean `errno`, without the final `errno`. -/
def consume (req : HttpRequest) (rest : Bytes) : HttpRequest × Nat :=
  ((req.feed .clear rest).1, (req.feed .clear rest).2.1)

/-- The body never holds more than its declared length, and none before the head
is complete; a bad request is finished. -/
structure Fits (req : HttpRequest) : Prop where
  bad : req.isBadReq = true → req.state = .parseSuccess
  head : req.InHead → req.body = []
  body : req.state = .parseBody → ∀ value len, req.headers.lookup (bytes "Content-Length") = some value →
    contentLength value = some len → req.body.length ≤ len

/-- The states between two calls of `parse`: the body phase is only ever left
open for a `POST` whose `Content-Length` is known. -/
structure Coherent (req : HttpRequest) : Prop extends Fits req where
  waiting : req.state = .parseBody →
    req.method = .post ∧ (req.headers.lookup (bytes "Content-Length")).isSome

theorem fresh_coherent : fresh.Coherent where
  bad wrong := absurd wrong (by decide)
  head _ := rfl
  body state := by simp [fresh] at state
  waiting state := by simp [fresh] at state

theorem coherent_of_success {req : HttpRequest} (done : req.state = .parseSuccess) :
    req.Coherent where
  bad _ := done
  head head := absurd done head.ne_success
  body state := by simp [done] at state
  waiting state := by simp [done] at state

theorem takeReqLine_body (req : HttpRequest) (line : Bytes) :
    (req.takeReqLine line).body = req.body := by
  obtain ⟨_, _, _, _, _, _, same⟩ := req.takeReqLine_frame line
  rw [same]

theorem takeHeader_body (req : HttpRequest) (line : Bytes) :
    (req.takeHeader line).body = req.body := by
  unfold takeHeader
  split
  · rfl
  · split <;> rfl

theorem takeLine_body (req : HttpRequest) (line : Bytes) : (req.takeLine line).body = req.body := by
  unfold takeLine
  split
  · exact takeReqLine_body req line
  · exact takeHeader_body req line

variable {req : HttpRequest} {rest more : Bytes}

theorem takeReqLine_isBadReq (req : HttpRequest) (line : Bytes) :
    (req.takeReqLine line).state = .parseSuccess ∨ (req.takeReqLine line).isBadReq = req.isBadReq := by
  unfold takeReqLine
  split
  · exact .inl rfl
  · rename_i k _
    dsimp only
    split
    · exact .inl rfl
    · split
      · exact .inl rfl
      · split
        · exact .inl rfl
        · split
          · exact .inl rfl
          · rename_i j _ _ _
            obtain ⟨_, _, same⟩ := takeUri_frame
              { req with method := httpStrToMethod (cStr (line.take k)) } ((line.drop (k + 1)).take j)
            right
            rw [same]

theorem takeHeader_isBadReq (req : HttpRequest) (line : Bytes) :
    (req.takeHeader line).state = .parseSuccess ∨ (req.takeHeader line).isBadReq = req.isBadReq := by
  unfold takeHeader
  split
  · exact .inr rfl
  · split
    · exact .inl rfl
    · exact .inr rfl

theorem takeLine_isBadReq (req : HttpRequest) (line : Bytes) :
    (req.takeLine line).state = .parseSuccess ∨ (req.takeLine line).isBadReq = req.isBadReq := by
  unfold takeLine
  split
  · exact takeReqLine_isBadReq req line
  · exact takeHeader_isBadReq req line

theorem Fits.takeLine (fits : req.Fits) (head : req.InHead) (line : Bytes) :
    (req.takeLine line).Fits where
  bad wrong := by
    rcases takeLine_isBadReq req line with done | same
    · exact done
    · exact absurd (fits.bad (same.symm.trans wrong)) head.ne_success
  head _ := by rw [takeLine_body, fits.head head]
  body _ value len _ _ := by
    rw [takeLine_body, fits.head head]
    exact Nat.zero_le _

theorem takeBody_full {contentLen : Nat} (fits : req.body.length ≤ contentLen)
    (enough : contentLen - req.body.length ≤ rest.length) :
    (req.takeBody contentLen rest).state = .parseSuccess := by
  unfold takeBody
  rw [sizeSub_of_le fits]
  dsimp only
  rw [if_pos]
  rw [List.length_append, List.length_take]
  omega

theorem takeBody_short {contentLen : Nat} (fits : req.body.length ≤ contentLen)
    (missing : rest.length < contentLen - req.body.length) :
    req.takeBody contentLen rest = { req with body := req.body ++ rest } := by
  unfold takeBody
  rw [sizeSub_of_le fits, List.take_of_length_le (by omega)]
  dsimp only
  rw [if_neg]
  rw [List.length_append]
  omega

theorem takeBody_append {contentLen : Nat} (fits : req.body.length ≤ contentLen)
    (enough : contentLen - req.body.length ≤ rest.length) :
    req.takeBody contentLen (rest ++ more) = req.takeBody contentLen rest := by
  unfold takeBody
  rw [sizeSub_of_le fits, List.take_append_of_le_length enough]

theorem takeBody_more {contentLen : Nat}
    (missing : rest.length < contentLen - req.body.length) :
    req.takeBody contentLen (rest ++ more) =
      { req with body := req.body ++ rest }.takeBody contentLen more := by
  have width : (req.body ++ rest).length = req.body.length + rest.length := List.length_append
  have whole : sizeSub contentLen req.body.length = contentLen - req.body.length :=
    sizeSub_of_le (by omega)
  have left : sizeSub contentLen (req.body ++ rest).length =
      contentLen - req.body.length - rest.length := by
    rw [sizeSub_of_le (by omega), width, Nat.sub_sub]
  simp only [takeBody, whole, left, List.take_append, ← List.append_assoc]
  rw [List.take_of_length_le (by omega : rest.length ≤ contentLen - req.body.length)]

/-- The body phase of a `POST` with a `Content-Length`, once a byte is there. -/
theorem feedBody_post {value : Bytes} (errno : Errno) (post : req.method = .post)
    (lookup : req.headers.lookup (bytes "Content-Length") = some value) (nonempty : rest ≠ []) :
    req.feedBody errno rest =
      match strToInum strtoul errno value with
      | (none, errno) => (req.setBadReq, 0, errno)
      | (some contentLen, errno) =>
          (req.takeBody contentLen rest, min (sizeSub contentLen req.body.length) rest.length, errno) := by
  rcases converted : strToInum strtoul errno value with ⟨_ | contentLen, errno⟩ <;>
    simp only [feedBody, post, lookup, if_neg nonempty, converted]

theorem consume_body_bad {value : Bytes} (state : req.state = .parseBody) (post : req.method = .post)
    (lookup : req.headers.lookup (bytes "Content-Length") = some value) (nonempty : rest ≠ [])
    (converted : contentLength value = none) : req.consume rest = (req.setBadReq, 0) := by
  rw [consume, feed_body state, feedBody_post _ post lookup nonempty]
  unfold contentLength at converted
  generalize strToInum strtoul .clear value = result at converted ⊢
  obtain ⟨number, errno⟩ := result
  subst converted
  rfl

theorem consume_body_good {value : Bytes} {len : Nat} (state : req.state = .parseBody)
    (post : req.method = .post) (lookup : req.headers.lookup (bytes "Content-Length") = some value)
    (nonempty : rest ≠ []) (converted : contentLength value = some len)
    (fits : req.body.length ≤ len) :
    req.consume rest = (req.takeBody len rest, min (len - req.body.length) rest.length) := by
  rw [consume, feed_body state, feedBody_post _ post lookup nonempty,
    ← sizeSub_of_le fits]
  unfold contentLength at converted
  generalize strToInum strtoul .clear value = result at converted ⊢
  obtain ⟨number, errno⟩ := result
  dsimp only at converted
  subst converted
  rfl

theorem consume_success (done : req.state = .parseSuccess) : req.consume rest = (req, 0) := by
  rw [consume, feed_success done]

theorem consume_no_line (head : req.InHead) (absent : find? crlf rest = none) :
    req.consume rest = (req, 0) := by
  rw [consume, feed_no_line head absent]

theorem consume_last_line (head : req.InHead) {lineEnd : Nat}
    (found : find? crlf rest = some lineEnd)
    (last : (req.takeLine (rest.take lineEnd)).state = .parseSuccess) :
    req.consume rest = (req.takeLine (rest.take lineEnd), 0) := by
  rw [consume, feed_line head found, if_pos last]

theorem consume_line (head : req.InHead) {lineEnd : Nat} (found : find? crlf rest = some lineEnd)
    (notLast : (req.takeLine (rest.take lineEnd)).state ≠ .parseSuccess) :
    req.consume rest =
      (((req.takeLine (rest.take lineEnd)).consume (rest.drop (lineEnd + 2))).1,
        lineEnd + 2 + ((req.takeLine (rest.take lineEnd)).consume (rest.drop (lineEnd + 2))).2) := by
  rw [consume, feed_line head found, if_neg notLast]
  rfl

theorem consume_body_nil {value : Bytes} (state : req.state = .parseBody)
    (post : req.method = .post)
    (lookup : req.headers.lookup (bytes "Content-Length") = some value) :
    req.consume [] = (req, 0) := by
  rw [consume, feed_body state]
  simp only [feedBody, post, lookup, if_true]

/-- Unless a body of declared length is due, the body phase ends the request at
once, whatever follows. -/
theorem feed_body_cases (state : req.state = .parseBody) :
    (∃ next, next.state = .parseSuccess ∧ ∀ errno rest, req.feed errno rest = (next, 0, errno)) ∨
      (req.method = .post ∧ ∃ value, req.headers.lookup (bytes "Content-Length") = some value) := by
  cases method : req.method with
  | get =>
      refine .inl ⟨{ req with state := .parseSuccess }, rfl, fun errno rest => ?_⟩
      rw [feed_body state]
      simp only [feedBody, method]
  | post =>
      cases lookup : req.headers.lookup (bytes "Content-Length") with
      | none =>
          refine .inl ⟨{ req with state := .parseSuccess }, rfl, fun errno rest => ?_⟩
          rw [feed_body state]
          simp only [feedBody, method, lookup]
      | some value => exact .inr ⟨rfl, value, rfl⟩
  | _ =>
      refine .inl ⟨req.setBadReq, rfl, fun errno rest => ?_⟩
      rw [feed_body state]
      simp only [feedBody, method]

theorem consume_bound (req : HttpRequest) (rest : Bytes) : (req.consume rest).2 ≤ rest.length :=
  feed_bound .clear req rest

theorem consume_body_resumes (fits : req.Fits) (state : req.state = .parseBody) :
    req.consume (rest ++ more) =
      (((req.consume rest).1.consume (rest.drop (req.consume rest).2 ++ more)).1,
        (req.consume rest).2 + ((req.consume rest).1.consume (rest.drop (req.consume rest).2 ++ more)).2) := by
  rcases feed_body_cases state with ⟨next, done, ends⟩ | ⟨post, value, lookup⟩
  · simp only [consume, ends, feed_success done, Nat.add_zero]
  · by_cases empty : rest = []
    · subst rest
      rw [consume_body_nil state post lookup]
      simp
    · have nonempty : rest ++ more ≠ [] := by simp [empty]
      cases converted : contentLength value with
      | none =>
          rw [consume_body_bad state post lookup nonempty converted,
            consume_body_bad state post lookup empty converted,
            consume_success (setBadReq_state req), Nat.add_zero]
      | some len =>
          have bound := fits.body state value len lookup converted
          rw [consume_body_good state post lookup nonempty converted bound,
            consume_body_good state post lookup empty converted bound, List.length_append]
          by_cases enough : len - req.body.length ≤ rest.length
          · rw [takeBody_append bound enough,
              consume_success (takeBody_full bound enough)]
            simp only [Prod.mk.injEq, true_and]
            omega
          · have missing : rest.length < len - req.body.length := by omega
            have boundNext : (req.body ++ rest).length ≤ len := by
              rw [List.length_append]
              omega
            rw [takeBody_short bound missing, Nat.min_eq_right (Nat.le_of_lt missing),
              List.drop_length, List.nil_append]
            let next : HttpRequest := { req with body := req.body ++ rest }
            change _ = ((next.consume more).1, rest.length + (next.consume more).2)
            by_cases last : more = []
            · have stops : next.consume [] = (next, 0) := consume_body_nil state post lookup
              subst more
              rw [List.append_nil, takeBody_short bound missing, stops]
              simp only [Prod.mk.injEq, next, true_and, List.length_nil]
              omega
            · have goesOn : next.consume more = (next.takeBody len more,
                  min (len - (req.body ++ rest).length) more.length) :=
                consume_body_good state post lookup last converted boundNext
              rw [goesOn, takeBody_more missing]
              simp only [Prod.mk.injEq, next, true_and, List.length_append]
              omega

/-- `consume` may stop anywhere and go on later with the bytes it left. -/
theorem consume_resumes (req : HttpRequest) (rest more : Bytes) (fits : req.Fits) :
    req.consume (rest ++ more) =
      (((req.consume rest).1.consume (rest.drop (req.consume rest).2 ++ more)).1,
        (req.consume rest).2 +
          ((req.consume rest).1.consume (rest.drop (req.consume rest).2 ++ more)).2) := by
  induction req, rest using feed_induction with
  | success req rest done => simp only [consume_success done, Nat.add_zero]
  | body req rest inBody => exact consume_body_resumes fits inBody
  | noLine req rest head absent =>
      rw [consume_no_line head absent, List.drop_zero, Nat.zero_add]
  | lastLine req rest lineEnd head found last =>
      have bound := find?_bound found
      have line : (rest ++ more).take lineEnd = rest.take lineEnd :=
        List.take_append_of_le_length (by omega)
      rw [consume_last_line head found last, consume_success last, ← line]
      rw [← line] at last
      exact consume_last_line head (find?_append_of_some found) last
  | line req rest lineEnd head found notLast ih =>
      have bound := find?_bound found
      change lineEnd + 2 ≤ rest.length at bound
      have line : (rest ++ more).take lineEnd = rest.take lineEnd :=
        List.take_append_of_le_length (by omega)
      have after : (rest ++ more).drop (lineEnd + 2) = rest.drop (lineEnd + 2) ++ more :=
        List.drop_append_of_le_length bound
      have next := ih (fits.takeLine head _)
      rw [consume_line head found notLast,
        consume_line head (find?_append_of_some found) (by rwa [line]), line, after, next]
      rw [List.drop_drop]
      simp only [Nat.add_assoc]

theorem Fits.consume_body_coherent (fits : req.Fits) (state : req.state = .parseBody) :
    (req.consume rest).1.Coherent := by
  rcases feed_body_cases state with ⟨next, done, ends⟩ | ⟨post, value, lookup⟩
  · rw [consume, ends]
    exact coherent_of_success done
  · have waits : req.Coherent :=
      { fits with waiting := fun _ => ⟨post, by rw [lookup]; rfl⟩ }
    by_cases empty : rest = []
    · subst rest
      rw [consume_body_nil state post lookup]
      exact waits
    · cases converted : contentLength value with
      | none =>
          rw [consume_body_bad state post lookup empty converted]
          exact coherent_of_success (setBadReq_state req)
      | some len =>
          have bound := fits.body state value len lookup converted
          rw [consume_body_good state post lookup empty converted bound]
          by_cases enough : len - req.body.length ≤ rest.length
          · exact coherent_of_success (takeBody_full bound enough)
          · rw [takeBody_short bound (by omega)]
            refine ⟨⟨waits.bad, fun head => absurd state head.ne_body, ?_⟩, waits.waiting⟩
            intro _ value' len' lookup' converted'
            rw [lookup, Option.some.injEq] at lookup'
            subst value'
            rw [converted, Option.some.injEq] at converted'
            subst len'
            rw [List.length_append]
            omega

theorem consume_coherent (req : HttpRequest) (rest : Bytes) (fits : req.Fits) :
    (req.consume rest).1.Coherent := by
  induction req, rest using feed_induction with
  | success req rest done =>
      rw [consume_success done]
      exact coherent_of_success done
  | body req rest inBody => exact fits.consume_body_coherent inBody
  | noLine req rest head absent =>
      rw [consume_no_line head absent]
      exact { fits with waiting := fun inBody => absurd inBody head.ne_body }
  | lastLine req rest lineEnd head found last =>
      rw [consume_last_line head found last]
      exact coherent_of_success last
  | line req rest lineEnd head found notLast ih =>
      rw [consume_line head found notLast]
      exact ih (fits.takeLine head _)

theorem Coherent.feed_nil (coherent : req.Coherent) (errno : Errno) :
    req.feed errno [] = (req, 0, errno) := by
  by_cases done : req.state = .parseSuccess
  · exact feed_success done
  · by_cases inBody : req.state = .parseBody
    · obtain ⟨post, present⟩ := coherent.waiting inBody
      obtain ⟨value, lookup⟩ := Option.isSome_iff_exists.mp present
      rw [feed_body inBody]
      simp only [feedBody, post, lookup, if_true]
    · exact feed_no_line (inHead_of_ne done inBody) rfl

theorem Coherent.consume_nil (coherent : req.Coherent) : req.consume [] = (req, 0) := by
  rw [consume, coherent.feed_nil]

theorem consume_resumable : Resumable Coherent consume where
  keeps coherent := consume_coherent _ _ coherent.toFits
  idle coherent := coherent.consume_nil
  bounded _ := consume_bound _ _
  resumes coherent := consume_resumes _ _ _ coherent.toFits

/-! ## Calls of `parse` under any `errno` but `ERANGE` -/

theorem feedBody_errno {errno : Errno} (clean : errno ≠ .erange) (req : HttpRequest)
    (rest : Bytes) :
    (req.feedBody errno rest).1 = (req.feedBody .clear rest).1 ∧
      (req.feedBody errno rest).2.1 = (req.feedBody .clear rest).2.1 := by
  unfold feedBody
  split
  · exact ⟨rfl, rfl⟩
  · split
    · exact ⟨rfl, rfl⟩
    · rename_i value _
      split
      · exact ⟨rfl, rfl⟩
      · have same : (strToInum strtoul errno value).1 = (strToInum strtoul .clear value).1 :=
          strToInum_of_ne_erange clean value
        generalize strToInum strtoul errno value = left at same
        generalize strToInum strtoul .clear value = right at same
        obtain ⟨number, _⟩ := left
        obtain ⟨_, _⟩ := right
        dsimp only at same
        subst same
        cases number <;> exact ⟨rfl, rfl⟩
  · exact ⟨rfl, rfl⟩

theorem feed_errno {errno : Errno} (clean : errno ≠ .erange) (req : HttpRequest) (rest : Bytes) :
    ((req.feed errno rest).1, (req.feed errno rest).2.1) = req.consume rest := by
  induction req, rest using feed_induction with
  | success req rest done => rw [feed_success done, consume_success done]
  | body req rest inBody =>
      obtain ⟨state, taken⟩ := feedBody_errno clean req rest
      rw [consume, feed_body inBody, feed_body inBody, state, taken]
  | noLine req rest head absent => rw [feed_no_line head absent, consume_no_line head absent]
  | lastLine req rest lineEnd head found last =>
      rw [consume_last_line head found last, feed_line head found, if_pos last]
  | line req rest lineEnd head found notLast ih =>
      rw [consume_line head found notLast, feed_line head found, if_neg notLast, ← ih]

theorem Coherent.parse_eq_feed (coherent : req.Coherent) (errno : Errno) {data : Bytes}
    (short : data.length < 2 ^ 32) (startIdx : Nat) :
    req.parse errno data startIdx = .ok (req.feed errno (data.drop startIdx)) := by
  rw [HttpRequest.parse_eq_feed short]
  by_cases atEnd : data.length ≤ startIdx
  · rw [if_pos atEnd, List.drop_eq_nil_of_le atEnd, coherent.feed_nil]
  · rw [if_neg atEnd]

/-- For the request and the count of a clean call, `errno` makes no difference. -/
theorem Coherent.parse_eq_consume {errno : Errno} (coherent : req.Coherent)
    (clean : errno ≠ .erange) {data : Bytes} (short : data.length < 2 ^ 32) (startIdx : Nat) :
    ∃ after, req.parse errno data startIdx =
      .ok ((req.consume (data.drop startIdx)).1, (req.consume (data.drop startIdx)).2, after) := by
  rw [coherent.parse_eq_feed errno short, ← feed_errno clean]
  exact ⟨_, rfl⟩

/-- The caller that keeps everything it received and advances an offset,
`n += parse(data, n)`. -/
def parseKeeping (req : HttpRequest) (n : Nat) :
    List (Errno × Bytes) → Except Fault (HttpRequest × Nat)
  | [] => .ok (req, n)
  | (errno, data) :: later => do
      let (req, more, _) ← req.parse errno data n
      parseKeeping req (u32 (n + more)) later

/-- The caller that drops what was parsed and starts every call at 0. -/
def parseDropping (req : HttpRequest) (n : Nat) :
    List (Errno × Bytes) → Except Fault (HttpRequest × Nat)
  | [] => .ok (req, n)
  | (errno, data) :: later => do
      let (req, more, _) ← req.parse errno (data.drop n) 0
      parseDropping req (u32 (n + more)) later

theorem parse_drop {errno : Errno} {data : Bytes} (short : data.length < 2 ^ 32) (startIdx : Nat) :
    req.parse errno data startIdx = req.parse errno (data.drop startIdx) 0 := by
  have shorter : (data.drop startIdx).length < 2 ^ 32 := by
    rw [List.length_drop]
    omega
  rw [parse_eq_feed short, parse_eq_feed shorter, List.drop_zero, List.length_drop]
  split
  · rw [if_pos (by omega)]
  · rw [if_neg (by omega)]

/-- Both callers are the abstract driver of `consume`. -/
theorem Coherent.callers_eq_drive (calls : List (Errno × Bytes)) {req : HttpRequest}
    (coherent : req.Coherent) {n : Nat} (clean : ∀ call ∈ calls, call.1 ≠ .erange)
    (short : ∀ call ∈ calls, n ≤ call.2.length ∧ call.2.length < 2 ^ 32)
    (chain : (calls.map Prod.snd).IsChain (· <+: ·)) :
    parseKeeping req n calls = .ok (drive consume req n (calls.map Prod.snd)) ∧
      parseDropping req n calls = .ok (drive consume req n (calls.map Prod.snd)) := by
  induction calls generalizing req n with
  | nil => exact ⟨rfl, rfl⟩
  | cons call later ih =>
      obtain ⟨errno, data⟩ := call
      have head := short (errno, data) List.mem_cons_self
      dsimp only at head
      obtain ⟨after, parsed⟩ :=
        coherent.parse_eq_consume (clean (errno, data) List.mem_cons_self) head.2 n
      have dropped := parsed
      rw [parse_drop head.2] at dropped
      have bound := consume_bound req (data.drop n)
      rw [List.length_drop] at bound
      have offset : u32 (n + (req.consume (data.drop n)).2) = n + (req.consume (data.drop n)).2 :=
        u32_of_lt (by omega)
      have longer : ∀ call ∈ later, data.length ≤ call.2.length := by
        intro call member
        rw [List.map_cons, List.isChain_iff_pairwise, List.pairwise_cons] at chain
        exact (chain.1 call.2 (List.mem_map_of_mem member)).length_le
      rw [List.map_cons] at chain
      have next := ih (consume_coherent req (data.drop n) coherent.toFits)
        (n := n + (req.consume (data.drop n)).2)
        (fun call member => clean call (List.mem_cons_of_mem _ member))
        (fun call member => ⟨by have := longer call member; omega,
          (short call (List.mem_cons_of_mem _ member)).2⟩)
        chain.tail
      rw [parseKeeping, parseDropping, parsed, dropped]
      simp only [bind, Except.bind, offset, List.map_cons, drive]
      exact next

/-- A call from any state: it raises nothing, stays inside the data, depends on the
bytes from `startIdx` on only, and does nothing once the request is complete. -/
theorem parse_total {errno : Errno} {data : Bytes} (short : data.length < 2 ^ 32)
    (startIdx : Nat) :
    ∃ next n after, req.parse errno data startIdx = .ok (next, n, after) ∧
      (startIdx ≤ data.length → startIdx + n ≤ data.length) := by
  rw [parse_eq_feed short]
  split
  · exact ⟨_, _, _, rfl, fun inside => inside⟩
  · refine ⟨_, _, _, rfl, fun inside => ?_⟩
    have bound := feed_bound errno req (data.drop startIdx)
    rw [List.length_drop] at bound
    exact Nat.add_le_of_le_sub' inside bound

theorem parse_success {errno : Errno} {data : Bytes} (done : req.state = .parseSuccess)
    (startIdx : Nat) : req.parse errno data startIdx = .ok (req, 0, errno) := by
  rw [parse, if_pos (.inl done)]

/-- However the input is cut, both callers end as one call on the whole input. -/
theorem parse_cut_independent {whole : Bytes} {calls : List (Errno × Bytes)} {errno : Errno}
    (short : whole.length < 2 ^ 32) (clean : errno ≠ .erange)
    (cleanCalls : ∀ call ∈ calls, call.1 ≠ .erange)
    (chain : (calls.map Prod.snd).IsChain (· <+: ·))
    (last : (calls.map Prod.snd).getLast? = some whole) :
    (∃ req n after, fresh.parse errno whole 0 = .ok (req, n, after) ∧
      parseKeeping fresh 0 calls = .ok (req, n) ∧ parseDropping fresh 0 calls = .ok (req, n)) ∧
      ∀ (req : HttpRequest) (errno : Errno) (data : Bytes) (startIdx : Nat),
        data.length < 2 ^ 32 →
          req.parse errno data startIdx = req.parse errno (data.drop startIdx) 0 ∧
          (∃ next n after, req.parse errno data startIdx = .ok (next, n, after) ∧
            (startIdx ≤ data.length → startIdx + n ≤ data.length)) ∧
          (req.parseComplete = true → req.parse errno data startIdx = .ok (req, 0, errno)) := by
  constructor
  · have prefixes : ∀ call ∈ calls, 0 ≤ call.2.length ∧ call.2.length < 2 ^ 32 := by
      intro call member
      have grows := (prefix_of_chain chain last (List.mem_map_of_mem member)).length_le
      exact ⟨Nat.zero_le _, by omega⟩
    obtain ⟨after, parsed⟩ := fresh_coherent.parse_eq_consume clean short 0
    obtain ⟨keeping, dropping⟩ :=
      fresh_coherent.callers_eq_drive calls cleanCalls prefixes chain
    rw [consume_resumable.drive_eq fresh_coherent chain last] at keeping dropping
    exact ⟨_, _, after, parsed, keeping, dropping⟩
  · intro req errno data startIdx shortData
    exact ⟨parse_drop shortData startIdx, parse_total shortData startIdx,
      fun done => parse_success (by simpa [parseComplete] using done) startIdx⟩

theorem parse_cut_independent_in_version :
    ∃ req n after, fresh.parse .clear (bytes "GET / HTTP/1.1\r\n\r\n") 0 = .ok (req, n, after) ∧
      parseKeeping fresh 0 [(.enoent, bytes "GET / HT"),
        (.clear, bytes "GET / HTTP/1.1\r\n\r\n")] = .ok (req, n) ∧
      parseDropping fresh 0 [(.enoent, bytes "GET / HT"),
        (.clear, bytes "GET / HTTP/1.1\r\n\r\n")] = .ok (req, n) :=
  (parse_cut_independent (by decide) (by decide) (by decide) (by decide) rfl).1

end HttpRequest

end LiteWebServer
