import LiteWebServer.Http.RoundTrip
import LiteWebServer.UserConn.Input

namespace LiteWebServer

open Data

/-! A request that arrives in pieces, read up to its last byte. -/

namespace HttpRequest

variable {req : HttpRequest} {received tail : Bytes}

theorem consume_withVer (version received : Bytes) :
    ∃ version', (req.withVer version).consume received =
      ((req.consume received).1.withVer version', (req.consume received).2) := by
  obtain ⟨version', fed⟩ := feed_withVer .clear req received version
  exact ⟨version', by rw [consume, fed]; rfl⟩

/-- Bytes behind the received ones change nothing when there are none, when the request is
complete without them, or when the head is unfinished and they do not complete a line. -/
theorem Coherent.consume_behind (coherent : req.Coherent)
    (settled : tail = [] ∨ (req.consume received).1.parseComplete = true ∨
      ((req.consume received).1.InHead ∧
        ¬ crlf <:+: (received ++ tail).drop (received.length - 1))) :
    req.consume (received ++ tail) = req.consume received := by
  have whole := consume_resumes req received tail coherent.toFits
  have bound := consume_bound req received
  rcases settled with empty | complete | ⟨head, quiet⟩
  · rw [empty, List.append_nil]
  · have success : (req.consume received).1.state = .parseSuccess := by
      simpa [parseComplete] using complete
    rw [whole, consume_success success, Nat.add_zero]
  · have absent := find?_of_consume_idle head (consume_done req received coherent.toFits)
    have noLine : find? crlf (received.drop (req.consume received).2 ++ tail) = none := by
      cases found : find? crlf (received.drop (req.consume received).2 ++ tail) with
      | none => rfl
      | some k =>
          -- The line would end behind the received bytes, or with the last of them.
          have beyond := find?_append_of_none absent found
          obtain ⟨occurs, -⟩ := find?_occurs found
          have width : crlf.length = 2 := rfl
          rw [List.length_drop, width] at beyond
          rw [← List.drop_append_of_le_length bound, List.drop_drop,
            show (req.consume received).2 + k = received.length - 1 +
              ((req.consume received).2 + k - (received.length - 1)) by omega,
            ← List.drop_drop] at occurs
          exact absurd (occurs.isInfix.trans (List.drop_suffix _ _).isInfix) quiet
    rw [whole, consume_no_line head noLine, Nat.add_zero]

theorem feedBody_method (errno : Errno) (req : HttpRequest) (rest : Bytes) :
    (req.feedBody errno rest).1.method = req.method := by
  unfold feedBody
  repeat' split
  all_goals rfl

/-- One call of `parse` under an `errno` that no conversion meets as `ERANGE`. -/
theorem Coherent.parse_exact (coherent : req.Coherent) (errno : Errno) {data : Bytes}
    (short : data.length < 2 ^ 32) (startIdx : Nat)
    (noRange : errno = .erange → (req.consume (data.drop startIdx)).1.Unconverted) :
    ∃ after, req.parse errno data startIdx =
      .ok ((req.consume (data.drop startIdx)).1, (req.consume (data.drop startIdx)).2, after) := by
  refine ⟨(req.feed errno (data.drop startIdx)).2.2, ?_⟩
  have read : ((req.feed errno (data.drop startIdx)).1, (req.feed errno (data.drop startIdx)).2.1) =
      req.consume (data.drop startIdx) := by
    by_cases range : errno = .erange
    · rw [range]
      exact feed_erange req _ coherent.toFits (noRange range)
    · exact feed_errno range req _
  rw [coherent.parse_eq_feed errno short, ← read]

end HttpRequest

namespace RequestText

variable (text : RequestText) {version received : Bytes}

theorem serialise_pos : 0 < text.serialise.length := by
  have width : crlf.length = 2 := rfl
  simp only [serialise, List.length_append, width]
  omega

theorem consume_serialise (small : text.serialise.length ≤ bufferMinSizeR) (version : Bytes) :
    (HttpRequest.fresh.withVer version).consume text.serialise =
      (text.asRead, text.serialise.length) := by
  have bound : text.body.length ≤ text.serialise.length := by
    simp only [serialise, List.length_append]
    omega
  have limit : bufferMinSizeR = 2048 := rfl
  have fed := @feed_serialise text .clear (fun _ => by simp) version [] (by omega)
  rw [List.append_nil] at fed
  change (((HttpRequest.fresh.withVer version).feed .clear text.serialise).1,
    ((HttpRequest.fresh.withVer version).feed .clear text.serialise).2.1) = _
  exact congrArg (fun read : HttpRequest × Nat × Errno => (read.1, read.2.1)) fed

/-- Bytes behind a request change nothing. -/
theorem consume_serialise_behind (small : text.serialise.length ≤ bufferMinSizeR)
    (version behind : Bytes) :
    (HttpRequest.fresh.withVer version).consume (text.serialise ++ behind) =
      (text.asRead, text.serialise.length) := by
  have alone := text.consume_serialise small version
  have coherent : (HttpRequest.fresh.withVer version).Coherent := HttpRequest.fresh_coherent.withVer
  rw [coherent.consume_behind (.inr (.inl (by rw [alone]; rfl))), alone]

/-- No request is complete before its last byte. -/
theorem unfinished (small : text.serialise.length ≤ bufferMinSizeR)
    (part : received <+: text.serialise) (missing : received.length < text.serialise.length) :
    ((HttpRequest.fresh.withVer version).consume received).1.parseComplete = false := by
  by_contra done
  obtain ⟨more, whole⟩ := part
  have coherent : (HttpRequest.fresh.withVer version).Coherent := HttpRequest.fresh_coherent.withVer
  have same : (HttpRequest.fresh.withVer version).consume (received ++ more) =
      (HttpRequest.fresh.withVer version).consume received :=
    coherent.consume_behind (.inr (.inl (Bool.eq_true_of_not_eq_false done)))
  have bound := HttpRequest.consume_bound (HttpRequest.fresh.withVer version) received
  rw [whole, text.consume_serialise small] at same
  have count := congrArg Prod.snd same
  dsimp only at count
  omega

/-- A `GET` has no body that it could be waiting for. -/
theorem inHead_of_get (get : text.method = .get) (small : text.serialise.length ≤ bufferMinSizeR)
    (part : received <+: text.serialise) (missing : received.length < text.serialise.length) :
    (HttpRequest.fresh.consume received).1.InHead := by
  have fits := HttpRequest.fresh_coherent.toFits
  have waiting : (HttpRequest.fresh.consume received).1.parseComplete = false :=
    @unfinished text (bytes "HTTP/1.1") received small part missing
  refine HttpRequest.inHead_of_ne (by simpa [HttpRequest.parseComplete] using waiting) fun body => ?_
  have post := ((HttpRequest.consume_coherent HttpRequest.fresh received fits).waiting body).1
  obtain ⟨more, whole⟩ := part
  have read := text.consume_serialise small (bytes "HTTP/1.1")
  change HttpRequest.fresh.consume text.serialise = _ at read
  rw [← whole, HttpRequest.consume_resumes _ _ _ fits, Prod.ext_iff] at read
  have method := congrArg HttpRequest.method read.1
  rw [HttpRequest.consume, HttpRequest.feed_body body, HttpRequest.feedBody_method, post] at method
  change HttpMethod.post = text.method.toHttp at method
  rw [get] at method
  cases method

end RequestText

namespace Session

variable {session : Session} {version : Bytes}

/-- What the connection holds is what a request with this version text makes of the received
bytes alone. -/
structure Reads (version : Bytes) (session : Session) : Prop where
  size : session.conn.bufferR.length = bufferMinSizeR
  fill : session.conn.bufferRBytes ≤ session.conn.bufferR.length
  received : session.conn.bufferR.take session.conn.bufferRBytes = session.received
  req : session.conn.req = ((HttpRequest.fresh.withVer version).consume session.received).1
  parsed : session.conn.reqParsedBytes =
    ((HttpRequest.fresh.withVer version).consume session.received).2

theorem Reads.faithful (reads : session.Reads version) : session.Faithful := by
  obtain ⟨version', read⟩ := @HttpRequest.consume_withVer .fresh version session.received
  exact ⟨reads.size, reads.fill, reads.received, ⟨version', by rw [reads.req, read]⟩,
    by rw [reads.parsed, read]⟩

theorem Reads.of_nothing {conn : UserConn} (size : conn.bufferR.length = bufferMinSizeR)
    (fill : conn.bufferRBytes = 0) {version : Bytes} (req : conn.req = HttpRequest.fresh.withVer version)
    (parsed : conn.reqParsedBytes = 0) : Reads version ⟨conn, []⟩ := by
  have coherent : (HttpRequest.fresh.withVer version).Coherent := HttpRequest.fresh_coherent.withVer
  constructor
  · exact size
  · rw [fill]
    exact Nat.zero_le _
  · rw [fill, List.take_zero]
  · rw [coherent.consume_nil]
    exact req
  · rw [coherent.consume_nil]
    exact parsed

/-- One call of `process_in` on an unfinished request. -/
theorem Reads.processIn (reads : session.Reads version) {errno : Errno} {offer : Bytes}
    (waiting : session.conn.req.parseComplete = false)
    (settled : session.Settled (.processIn errno offer)) :
    ∃ conn call errno', session.conn.processIn errno offer = .ok (conn, call, errno') ∧
      Reads version ⟨conn, session.received ++ session.delivered offer⟩ ∧
      (call = .modConnEventWrite ↔ conn.req.parseComplete = true) := by
  by_cases some : session.delivered offer = []
  · have recv : session.conn.recvFromCli offer = (session.conn, false) := if_pos some
    refine ⟨session.conn, _, errno, UserConn.processIn_nothing recv, ?_, by simp [waiting]⟩
    rw [some, List.append_nil]
    exact reads
  · obtain ⟨after, tail, recv, buffer, filled, size, req, parsed⟩ := reads.faithful.recvFromCli some
    obtain ⟨noRange, quiet⟩ := settled.resolve_left some
    rw [recv] at quiet
    rw [waiting] at noRange
    generalize whole : session.received ++ session.delivered offer = received' at *
    have initial : (HttpRequest.fresh.withVer version).Coherent := HttpRequest.fresh_coherent.withVer
    obtain ⟨version', seen⟩ := @HttpRequest.consume_withVer .fresh version received'
    have grows : session.received <+: received' := ⟨session.delivered offer, whole⟩
    have within : received' <+: after.bufferR := buffer ▸ List.prefix_append received' tail
    have tailQuiet : tail = [] ∨
        ((HttpRequest.fresh.withVer version).consume received').1.parseComplete = true ∨
        (((HttpRequest.fresh.withVer version).consume received').1.InHead ∧
          ¬ crlf <:+: (received' ++ tail).drop (received'.length - 1)) := by
      rw [seen]
      refine quiet.imp (fun full => ?_) (Or.imp id fun head => ?_)
      · rw [buffer, filled, List.length_append] at full
        exact List.length_eq_zero_iff.mp (by omega)
      · rwa [buffer, filled] at head
    have short : after.bufferR.length < 2 ^ 32 := by
      rw [size]
      decide
    have alone := initial.consume_behind tailQuiet
    have next := HttpRequest.consume_resumable.step initial (grows.trans within)
    rw [buffer, alone, ← reads.parsed, Prod.ext_iff, ← buffer] at next
    obtain ⟨state, count⟩ := next
    dsimp only at state count
    have coherent := HttpRequest.consume_coherent _ session.received initial.toFits
    obtain ⟨errno', call⟩ := coherent.parse_exact errno short session.conn.reqParsedBytes (by
      rw [state, seen]
      exact fun range => (noRange range).resolve_left (by simp))
    rw [← reads.req, ← req, ← parsed] at call
    obtain ⟨loopCall, processed⟩ := UserConn.processIn_some recv call
    rw [parsed, req, reads.req] at processed
    have bound := HttpRequest.consume_bound (HttpRequest.fresh.withVer version) received'
    have total := within.length_le
    rw [state, count, u32_of_lt (by omega)] at processed
    refine ⟨_, _, _, processed, ⟨size, filled ▸ total, ?_, rfl, rfl⟩, ?_⟩
    · dsimp only
      rw [filled, buffer, List.take_left]
    · obtain ⟨read, more, -, same, called⟩ := UserConn.processIn_parsed recv processed
      have held : _ = read := congrArg UserConn.req same
      rw [called, ← held]
      dsimp only
      split
      · rename_i complete
        exact iff_of_true rfl complete
      · rename_i complete
        exact iff_of_false (by simp) complete

/-- The calls of `process_in` up to the one that arms the socket for writing, each with
`errno` before it and the bytes the socket has. -/
def readIn (session : Session) : List (Errno × Bytes) → Except Fault Session
  | [] => .ok session
  | (errno, offer) :: later => do
      let (conn, call, _) ← session.conn.processIn errno offer
      let next : Session := ⟨conn, session.received ++ session.delivered offer⟩
      if call = .modConnEventWrite then return next else next.readIn later

theorem Reads.delivered (reads : session.Reads version) {offer : Bytes}
    (room : session.received.length + offer.length ≤ bufferMinSizeR) :
    session.delivered offer = offer := by
  have width := congrArg List.length reads.received
  rw [List.length_take, Nat.min_eq_left reads.fill] at width
  rw [Session.delivered, sizeSub_of_le reads.fill, reads.size]
  exact List.take_of_length_le (by omega)

/-- A request whose pieces are out of reach of what lies behind them is read whole. -/
theorem Reads.readIn {order : HashOrder Bytes Bytes} (ins : List (Errno × Bytes)) {session : Session}
    (reads : session.Reads version) {text : RequestText}
    (whole : session.received ++ (ins.map Prod.snd).flatten = text.serialise)
    (small : text.serialise.length ≤ bufferMinSizeR)
    (missing : session.received.length < text.serialise.length)
    (settled : session.SettledRun order (ins.map fun piece => .processIn piece.1 piece.2)) :
    ∃ last, session.readIn ins = .ok last ∧ last.Reads version ∧ last.received = text.serialise ∧
      last.conn.req = text.asRead ∧
      ∃ bufferR bufferRBytes req reqParsedBytes,
        last.conn = { session.conn with bufferR, bufferRBytes, req, reqParsedBytes } := by
  induction ins generalizing session with
  | nil =>
      rw [List.map_nil, List.flatten_nil, List.append_nil] at whole
      rw [whole] at missing
      exact absurd missing (Nat.lt_irrefl _)
  | cons piece later ih =>
      obtain ⟨errno, offer⟩ := piece
      rw [List.map_cons, List.flatten_cons, ← List.append_assoc] at whole
      have waiting : session.conn.req.parseComplete = false := by
        rw [reads.req]
        refine text.unfinished small ?_ missing
        rw [← whole, List.append_assoc]
        exact List.prefix_append _ _
      obtain ⟨conn, call, errno', processed, next, called⟩ := reads.processIn waiting settled.1
      have widths := congrArg List.length whole
      simp only [List.length_append] at widths
      have all : session.delivered offer = offer := reads.delivered (by omega)
      rw [all] at next
      have frame := UserConn.processIn_frame processed
      by_cases last : (session.received ++ offer).length = text.serialise.length
      · -- The last byte is there, and the request is complete.
        have nothing : ((later.map Prod.snd).flatten).length = 0 := by
          rw [List.length_append] at last
          omega
        rw [List.length_eq_zero_iff.mp nothing, List.append_nil] at whole
        have read : conn.req = text.asRead := by
          have held := next.req
          rw [whole, text.consume_serialise small] at held
          exact held
        have write : call = .modConnEventWrite := called.mpr (by rw [read]; rfl)
        refine ⟨⟨conn, session.received ++ offer⟩, ?_, next, whole, read, frame⟩
        simp only [Session.readIn, processed, all, bind, Except.bind, if_pos write, pure, Except.pure]
      · have unfinished : conn.req.parseComplete = false := by
          have held := next.req
          dsimp only at held
          rw [held]
          refine text.unfinished small ?_ ?_
          · rw [← whole]
            exact List.prefix_append _ _
          · rw [List.length_append] at last ⊢
            omega
        have again : call ≠ .modConnEventWrite := fun write => by
          simp [called.mp write] at unfinished
        have stepped : session.step order (.processIn errno offer) =
            .ok ⟨conn, session.received ++ offer⟩ := by
          simp [Session.step, processed, all, bind, Except.bind, pure, Except.pure]
        have rest := settled.2
        rw [stepped] at rest
        obtain ⟨end_, ran, read, received, req, bufferR, bufferRBytes, held, parsed, same⟩ :=
          ih next whole (by
            rw [List.length_append] at last ⊢
            omega) rest
        refine ⟨end_, ?_, read, received, req, bufferR, bufferRBytes, held, parsed, ?_⟩
        · simp only [Session.readIn, processed, all, bind, Except.bind, if_neg again]
          exact ran
        · obtain ⟨_, _, _, _, rfl⟩ := frame
          exact same

end Session

end LiteWebServer
