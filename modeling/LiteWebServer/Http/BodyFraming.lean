import LiteWebServer.Http.Calls
import LiteWebServer.Http.ContentLength

namespace LiteWebServer

open Data

/-! Where the body of a `POST` ends, however the input is cut into calls of `parse`. -/

namespace HttpRequest

/-- A text that `parse` takes for the head of a `POST` with a body of `len` bytes. -/
def PostHead (head : Bytes) (len : Nat) : Prop :=
  ∃ req value after, fresh.parse .clear head 0 = .ok (req, head.length, after) ∧
    req.state = .parseBody ∧ req.body = [] ∧
    req.getHeader (bytes "Content-Length") = some value ∧ FitsNumeral value ∧ decimalValue value = len

/-- What is to hold once `received` has been handed in: the body is as much of the declared
one as is there, no more, and the request is complete exactly when nothing is owed. -/
structure Framed (head : Bytes) (len : Nat) (received : Bytes) (req : HttpRequest) : Prop where
  body : req.body = (received.drop head.length).take len
  unwrapped : req.body.length ≤ len
  complete : req.parseComplete = true ↔ head.length + len ≤ received.length
  good : req.isBadReq = false

variable {head received more : Bytes} {len : Nat}

theorem parseReqLine_count {req next : HttpRequest} {data : Bytes} {startIdx n : Nat}
    (ran : req.parseReqLine data startIdx = .ok (next, n)) : n < 2 ^ 32 := by
  by_cases inside : startIdx ≤ data.length
  · rw [parseReqLine_eq inside, Except.ok.injEq] at ran
    split at ran
    · obtain ⟨-, rfl⟩ := Prod.mk.injEq .. ▸ ran
      exact Nat.two_pow_pos 32
    · obtain ⟨-, rfl⟩ := Prod.mk.injEq .. ▸ ran
      split
      · exact Nat.two_pow_pos 32
      · exact u32_lt _
  · rw [parseReqLine, findFrom, if_neg inside] at ran
    cases ran
    exact Nat.two_pow_pos 32

theorem parseHeadAfterLine_count {req next : HttpRequest} {data : Bytes} {startIdx parsedBytes n : Nat}
    (small : parsedBytes < 2 ^ 32)
    (ran : req.parseHeadAfterLine data startIdx parsedBytes = .ok (next, n)) : n < 2 ^ 32 := by
  unfold parseHeadAfterLine at ran
  split at ran
  · obtain ⟨⟨last, more⟩, -, same⟩ := bind_eq_ok.mp ran
    cases same
    exact u32_lt _
  · cases ran
    exact small

/-- The count `parse` returns is a `uint32_t`. -/
theorem parse_count {req next : HttpRequest} {errno after : Errno} {data : Bytes}
    {startIdx n : Nat} (ran : req.parse errno data startIdx = .ok (next, n, after)) : n < 2 ^ 32 := by
  by_cases active : ¬ (req.state = .parseSuccess ∨ data.length ≤ startIdx)
  · rw [parse_eq_head active] at ran
    obtain ⟨⟨middle, parsedBytes⟩, headRan, ran⟩ := bind_eq_ok.mp ran
    have small : parsedBytes < 2 ^ 32 := by
      unfold parseHead at headRan
      split at headRan
      · obtain ⟨⟨line, count⟩, lineRan, headRan⟩ := bind_eq_ok.mp headRan
        exact parseHeadAfterLine_count (parseReqLine_count lineRan) headRan
      · exact parseHeadAfterLine_count (Nat.two_pow_pos 32) headRan
    dsimp only at ran
    split at ran
    · obtain ⟨⟨last, more, errno'⟩, -, same⟩ := bind_eq_ok.mp ran
      cases same
      exact u32_lt _
    · cases ran
      exact small
  · rw [parse, if_pos (not_not.mp active)] at ran
    cases ran
    exact Nat.two_pow_pos 32

theorem PostHead.headed (accepted : PostHead head len) :
    ∃ req value, fresh.consume head = (req, head.length) ∧ req.state = .parseBody ∧ req.body = [] ∧
      req.isBadReq = false ∧ req.method = .post ∧
      req.headers.lookup (bytes "Content-Length") = some value ∧ contentLength value = some len := by
  obtain ⟨req, value, after, ran, inBody, empty, lookup, fits, rfl⟩ := accepted
  have clean : Errno.clear ≠ .erange := by simp
  obtain ⟨after', parsed⟩ := fresh_coherent.parse_eq_consume clean (parse_count ran) 0
  rw [parsed, List.drop_zero, Except.ok.injEq, Prod.mk.injEq, Prod.mk.injEq] at ran
  have consumed : fresh.consume head = (req, head.length) := Prod.ext ran.1 ran.2.1
  have coherent := consume_coherent fresh head fresh_coherent.toFits
  rw [consumed] at coherent
  refine ⟨req, value, consumed, inBody, empty, ?_, (coherent.waiting inBody).1, lookup,
    fits.contentLength⟩
  by_contra bad
  have done := coherent.bad (by simpa using bad)
  simp [inBody] at done

/-- Behind the head the body is taken up to its length. -/
theorem PostHead.behind (accepted : PostHead head len) (nonempty : more ≠ []) :
    (fresh.consume (head ++ more)).1.body = more.take len ∧
      ((fresh.consume (head ++ more)).1.parseComplete = true ↔ len ≤ more.length) ∧
      (fresh.consume (head ++ more)).1.isBadReq = false := by
  obtain ⟨req, value, consumed, inBody, empty, good, post, lookup, converted⟩ := accepted.headed
  have fits : req.body.length ≤ len := by simp [empty]
  have whole := consume_resumes fresh head more fresh_coherent.toFits
  rw [consumed, List.drop_length, List.nil_append,
    consume_body_good inBody post lookup nonempty converted fits] at whole
  rw [whole]
  dsimp only
  by_cases enough : len - req.body.length ≤ more.length
  · have done := takeBody_full fits enough
    refine ⟨?_, ?_, good⟩
    · rw [takeBody, sizeSub_of_le fits, empty]
      simp
    · rw [empty] at enough
      simpa [parseComplete, done] using enough
  · rw [takeBody_short fits (by omega)]
    rw [empty] at enough ⊢
    refine ⟨?_, ?_, good⟩
    · rw [List.nil_append, List.take_of_length_le (by simpa using Nat.le_of_not_le enough)]
    · simpa [parseComplete, inBody] using enough

/-- With a byte of the body at hand, the body phase ends or takes all there is. -/
theorem Coherent.body_moves {req : HttpRequest} {rest : Bytes} (coherent : req.Coherent)
    (inBody : req.state = .parseBody) (nonempty : rest ≠ []) :
    (req.consume rest).1.state = .parseSuccess ∨ (req.consume rest).1.body = req.body ++ rest := by
  obtain ⟨post, present⟩ := coherent.waiting inBody
  obtain ⟨value, lookup⟩ := Option.isSome_iff_exists.mp present
  cases converted : contentLength value with
  | none =>
      rw [consume_body_bad inBody post lookup nonempty converted]
      exact .inl (setBadReq_state req)
  | some len =>
      have fits := coherent.body inBody value len lookup converted
      rw [consume_body_good inBody post lookup nonempty converted fits]
      by_cases enough : len - req.body.length ≤ rest.length
      · exact .inl (takeBody_full fits enough)
      · right
        rw [takeBody_short fits (by omega)]

/-- In front of its end the head is incomplete, and no byte of it is a body. -/
theorem PostHead.within (accepted : PostHead head len) (nonempty : more ≠ [])
    (split : head = received ++ more) : (fresh.consume received).1.InHead := by
  obtain ⟨last, value, consumed, inBody, empty, -⟩ := accepted.headed
  have coherent := consume_coherent fresh received fresh_coherent.toFits
  have idle := consume_done fresh received fresh_coherent.toFits
  have whole := congrArg Prod.fst (consume_resumes fresh received more fresh_coherent.toFits)
  rw [← split, consumed] at whole
  dsimp only at whole
  generalize (fresh.consume received).1 = req at *
  generalize received.drop (fresh.consume received).2 = left at *
  cases state : req.state with
  | parseReqLine => exact .inl state
  | parseReqHeader => exact .inr state
  | parseSuccess =>
      rw [consume_success state] at whole
      simp [whole, state] at inBody
  | parseBody =>
      -- Nothing of the body is left over, and what comes next would be one.
      have none : left = [] := by
        by_contra some
        have moves := coherent.body_moves state some
        rw [idle] at moves
        simp [state, some] at moves
      rw [none, List.nil_append] at whole
      have moves := coherent.body_moves state nonempty
      rw [← whole, inBody, empty] at moves
      simp [nonempty] at moves

/-- What is to hold does hold, but for a body of no bytes whose head has just ended. -/
theorem PostHead.framed_iff (accepted : PostHead head len)
    (along : head <+: received ∨ received <+: head) :
    Framed head len received (fresh.consume received).1 ↔ len ≠ 0 ∨ received ≠ head := by
  obtain ⟨more, split⟩ : ∃ more, received = head ++ more ∨ more ≠ [] ∧ head = received ++ more := by
    rcases along with ⟨more, rfl⟩ | ⟨more, rfl⟩
    · exact ⟨more, .inl rfl⟩
    · by_cases none : more = []
      · exact ⟨[], .inl (by simp [none])⟩
      · exact ⟨more, .inr ⟨none, rfl⟩⟩
  rcases split with rfl | ⟨nonempty, rfl⟩
  · by_cases none : more = []
    · subst none
      obtain ⟨req, value, consumed, inBody, empty, good, -⟩ := accepted.headed
      rw [List.append_nil, consumed]
      refine ⟨fun framed => .inl fun zero => ?_, fun either => ?_⟩
      · have done := framed.complete.mpr (by simp [zero])
        simp [parseComplete, inBody] at done
      · have owed : len ≠ 0 := either.resolve_right (by simp)
        refine ⟨by simp [empty], by simp [empty], ?_, good⟩
        simp [parseComplete, inBody, owed]
    · obtain ⟨body, complete, good⟩ := accepted.behind none
      refine ⟨fun _ => .inr (by simp [none]), fun _ => ⟨?_, ?_, ?_, good⟩⟩
      · rw [body, List.drop_left]
      · rw [body, List.length_take]
        exact Nat.min_le_left _ _
      · rw [complete, List.length_append, Nat.add_le_add_iff_left]
  · have inHead := accepted.within nonempty rfl
    have coherent := consume_coherent fresh received fresh_coherent.toFits
    have short : received.length < (received ++ more).length := by
      have some := List.length_pos_of_ne_nil nonempty
      rw [List.length_append]
      omega
    have empty := coherent.head inHead
    refine ⟨fun _ => .inr (fun same => by simp [← same] at short), fun _ => ⟨?_, ?_, ?_, ?_⟩⟩
    · rw [empty, List.drop_eq_nil_of_le short.le, List.take_nil]
    · rw [empty]
      exact Nat.zero_le _
    · simp only [parseComplete, decide_eq_true_eq, inHead.ne_success, false_iff]
      omega
    · by_contra bad
      exact inHead.ne_success (coherent.bad (by simpa using bad))

theorem Framed.withVer {req : HttpRequest} {version : Bytes} :
    Framed head len received (req.withVer version) ↔ Framed head len received req :=
  ⟨fun framed => ⟨framed.body, framed.unwrapped, framed.complete, framed.good⟩,
    fun framed => ⟨framed.body, framed.unwrapped, framed.complete, framed.good⟩⟩

/-- After every call the body is framed as declared, unless it is to be empty and the call
ended with the head; and no call faults. -/
theorem body_framed_iff {calls : List (Errno × ParseCall)} {req : HttpRequest} {parsed : Nat}
    (accepted : PostHead head len) (fed : Fed calls req received parsed)
    (clean : ∀ call ∈ calls, call.1 ≠ .erange) (along : head <+: received ∨ received <+: head) :
    (Framed head len received req ↔ len ≠ 0 ∨ received ≠ head) ∧
      ∀ errno chunk dropped, ((received ++ chunk).drop dropped).length < 2 ^ 32 →
        ∃ next n after, req.parse errno ((received ++ chunk).drop dropped) (parsed - dropped) =
          .ok (next, n, after) := by
  constructor
  · obtain ⟨⟨version, rfl⟩, -⟩ := fed.reads fun call member stale => clean call member stale.1
    rw [Framed.withVer]
    exact accepted.framed_iff along
  · intro errno chunk dropped short
    rw [parse_eq_feed short]
    split
    · exact ⟨_, _, _, rfl⟩
    · exact ⟨_, _, _, rfl⟩

def pairPost : Bytes := bytes "POST / HTTP/1.1\r\nContent-Length: 2\r\n\r\n"

/-- The second call still has the last eight bytes of the head in its data. -/
theorem body_framed_across_calls :
    PostHead pairPost 2 ∧ ∃ calls req, Fed calls req (pairPost ++ bytes "ab") 40 ∧
      (∀ call ∈ calls, call.1 ≠ .erange) ∧ Framed pairPost 2 (pairPost ++ bytes "ab") req := by
  have accepted : PostHead pairPost 2 :=
    ⟨_, bytes "2", _, rfl, rfl, rfl, by decide, by decide +kernel, by decide⟩
  have first : Fed [(.clear, _)] _ ([] ++ pairPost) (0 + 38) :=
    .call (.start []) (Nat.le_refl 0) (by decide) rfl
  have second : Fed [(.enoent, _), (.clear, _)] _ (pairPost ++ bytes "ab") (38 + 2) :=
    .call first (by decide : 30 ≤ 38) (by decide) rfl
  have clean {later earlier : ParseCall} :
      ∀ call ∈ [(Errno.enoent, later), (Errno.clear, earlier)], call.1 ≠ .erange := by simp
  exact ⟨accepted, _, _, second, clean,
    (body_framed_iff accepted second clean (.inl (List.prefix_append _ _))).1.mpr (.inl (by decide))⟩

def emptyPost : Bytes := bytes "POST / HTTP/1.1\r\nContent-Length: 0\r\n\r\n"

/-- All of a request without a body is there, and the parser waits for more. -/
theorem empty_post_waits :
    PostHead emptyPost 0 ∧ ∃ req, Fed [(.clear, ⟨fresh, emptyPost, 0⟩)] req emptyPost 38 ∧
      req.parseComplete = false ∧ ¬ Framed emptyPost 0 emptyPost req := by
  have fed : Fed [(.clear, ⟨fresh, emptyPost, 0⟩)] _ ([] ++ emptyPost) (0 + 38) :=
    .call (.start (bytes "HTTP/1.1")) (Nat.le_refl 0) (by decide) rfl
  refine ⟨⟨_, bytes "0", _, rfl, rfl, rfl, by decide, by decide +kernel, by decide⟩, _, fed, rfl,
    fun framed => ?_⟩
  exact absurd (framed.complete.mpr (by decide)) (by decide)

end HttpRequest

end LiteWebServer
