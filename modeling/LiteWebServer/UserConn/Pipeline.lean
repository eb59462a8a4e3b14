import LiteWebServer.UserConn.Answers
import LiteWebServer.UserConn.Reading
import LiteWebServer.UserConn.Sending

namespace LiteWebServer

open Data

/-! Requests on a connection that is kept, in whatever pieces they arrive. -/

/-- A `GET` that asks for the connection to be kept. -/
structure KeptGet extends RequestText where
  get : method = .get
  kept : (headers.lookup (bytes "Connection")).map strToLower = some (bytes "keep-alive")

/-- One `recv`, with `errno` before it and the bytes that the socket has for it, and what
the calls of `process_out` meet if it completes a request. -/
structure Round where
  errno : Errno
  offer : Bytes
  outs : List OutEvent

/-- A request that was answered, the received bytes behind its end, and the bytes that the
connection holds for the next one when the exchange is complete. -/
structure ServedRequest where
  req : HttpRequest
  behind : Bytes
  next : Bytes

/-- What a connection has done: each `recv` with the state before it, the requests it
answered, and whether the last exchange is complete. -/
structure Served where
  recvs : List (Session × Round)
  answered : List ServedRequest
  complete : Bool

namespace UserConn

/-- The received bytes, as the connection counts them. -/
def held (conn : UserConn) : Bytes := conn.bufferR.take conn.bufferRBytes

/-- The received bytes behind the end of what was parsed. -/
def unread (conn : UserConn) : Bytes := conn.held.drop conn.reqParsedBytes

end UserConn

namespace Session

variable (order : HashOrder Bytes Bytes) (server : Server)

/-- One round after the other: `process_in`, and calls of `process_out` once it has
armed the socket for writing.  A connection that is not kept takes no more rounds. -/
def serve (session : Session) : List Round → Except Fault Served
  | [] => .ok ⟨[], [], true⟩
  | round :: later => do
      let (conn, call, _) ← session.conn.processIn round.errno round.offer
      if call = .modConnEventWrite then
        let run ← conn.outRun order server round.outs
        let answer : ServedRequest := ⟨conn.req, conn.unread, run.conn.held⟩
        if run.finished && UserConn.keepAlive conn.req then
          let rest ← serve ⟨run.conn, []⟩ later
          return ⟨(session, round) :: rest.recvs, answer :: rest.answered, rest.complete⟩
        else return ⟨[(session, round)], [answer], run.finished⟩
      else
        let rest ← serve ⟨conn, session.received ++ session.delivered round.offer⟩ later
        return ⟨(session, round) :: rest.recvs, rest.answered, rest.complete⟩

/-- The `recv` delivers all of its bytes, and `parse` is out of reach of what an older request
left behind them. -/
structure Takes (session : Session) (round : Round) : Prop where
  delivered : session.delivered round.offer = round.offer
  quiet : session.Settled (.processIn .clear round.offer)

instance (session : Session) (round : Round) : Decidable (session.Takes round) :=
  decidable_of_iff (session.delivered round.offer = round.offer ∧
      session.Settled (.processIn .clear round.offer))
    ⟨fun both => ⟨both.1, both.2⟩, fun takes => ⟨takes.delivered, takes.quiet⟩⟩

end Session

/-- The requests received are answered one by one, and what is received behind one of them
is the beginning of the next. -/
structure NothingLost (texts : List KeptGet) (served : Served) : Prop where
  answered : served.answered.map ServedRequest.req = texts.map fun text => text.asRead
  onward : ∀ answer ∈ served.answered, answer.next = answer.behind

/-- No `recv` that begins before the end of a request delivers bytes behind that end, `start`
bytes of the first request being there already. -/
def NoneBehind (start : Nat) (recvs requests : List Bytes) : Prop :=
  ∀ i < recvs.length, ∀ j ≤ requests.length,
    start + (recvs.take i).flatten.length < (requests.take j).flatten.length →
      start + (recvs.take (i + 1)).flatten.length ≤ (requests.take j).flatten.length

instance (start : Nat) (recvs requests : List Bytes) : Decidable (NoneBehind start recvs requests) :=
  inferInstanceAs (Decidable (∀ i < recvs.length, ∀ j ≤ requests.length, _ → _))

namespace NoneBehind

variable {start : Nat} {recv request : Bytes} {recvs requests : List Bytes}

theorem of_none (start : Nat) (recvs : List Bytes) : NoneBehind start recvs [] := by
  intro i _ j _ before
  simp at before

/-- A `recv` that leaves the first request unfinished, or ends with it, is one of those. -/
theorem cons_iff (inside : start + recv.length ≤ request.length) :
    NoneBehind start (recv :: recvs) (request :: requests) ↔
      NoneBehind (start + recv.length) recvs (request :: requests) := by
  constructor
  · intro none i small j bound before
    have shifted := none (i + 1) (Nat.succ_lt_succ small) j bound
    simp only [List.take_succ_cons, List.flatten_cons, List.length_append, ← Nat.add_assoc] at shifted
    exact shifted before
  · intro none i small j bound before
    cases i with
    | zero =>
        cases j with
        | zero => simp at before
        | succ j =>
            simp only [List.take_succ_cons, List.take_zero, List.flatten_cons, List.flatten_nil,
              List.append_nil, List.length_append]
            omega
    | succ i =>
        simp only [List.take_succ_cons, List.flatten_cons, List.length_append, ← Nat.add_assoc]
          at before ⊢
        exact none i (Nat.lt_of_succ_lt_succ small) j bound before

theorem next_iff : NoneBehind request.length recvs (request :: requests) ↔
    NoneBehind 0 recvs requests := by
  constructor
  · intro none i small j bound before
    have shifted := none i small (j + 1) (Nat.succ_le_succ bound)
    simp only [List.take_succ_cons, List.flatten_cons, List.length_append] at shifted
    omega
  · intro none i small j bound before
    cases j with
    | zero => simp at before
    | succ j =>
        have here := none i small j (Nat.le_of_succ_le_succ bound)
        simp only [List.take_succ_cons, List.flatten_cons, List.length_append] at before ⊢
        omega

theorem not_of_beyond (before : start < request.length) (beyond : request.length < start + recv.length) :
    ¬ NoneBehind start (recv :: recvs) (request :: requests) := by
  intro none
  have first := none 0 (Nat.succ_pos _) 1 (Nat.succ_le_succ (Nat.zero_le _))
  simp only [List.take_zero, List.flatten_nil, List.length_nil, Nat.add_zero, List.take_succ_cons,
    List.flatten_cons, List.append_nil, Nat.zero_add] at first
  exact absurd (first before) (Nat.not_le.mpr beyond)

end NoneBehind

/-- An answer to the first request, after which what stands behind it was kept. -/
theorem NothingLost.cons_iff {text : KeptGet} {more : List KeptGet} {answer : ServedRequest}
    {rest : Served} {recvs : List (Session × Round)} {complete : Bool}
    (req : answer.req = text.asRead) (onward : answer.next = answer.behind) :
    NothingLost (text :: more) ⟨recvs, answer :: rest.answered, complete⟩ ↔ NothingLost more rest := by
  constructor
  · intro lost
    exact ⟨(List.cons.inj lost.answered).2, fun other member =>
      lost.onward other (List.mem_cons_of_mem _ member)⟩
  · intro lost
    refine ⟨congrArg₂ List.cons req lost.answered, fun other member => ?_⟩
    rcases List.mem_cons.mp member with rfl | member
    · exact onward
    · exact lost.onward other member

theorem KeptGet.keepAlive (text : KeptGet) : UserConn.keepAlive text.asRead = true := by
  have kept := text.kept
  rw [← text.headRead_header] at kept
  obtain ⟨value, lookup, lower⟩ := Option.map_eq_some_iff.mp kept
  have found : text.asRead.getHeader (bytes "Connection") = some value := lookup
  rw [UserConn.keepAlive, found]
  exact decide_eq_true lower

namespace Session

variable {order : HashOrder Bytes Bytes} {server : Server} {session : Session} {version : Bytes}
  {round : Round}

theorem start_reads : (start order).Reads (bytes "HTTP/1.1") :=
  .of_nothing List.length_replicate rfl rfl rfl

/-- No `errno` matters to a request that calls for no conversion. -/
theorem Takes.settled (takes : session.Takes round)
    (unconverted : (HttpRequest.fresh.consume (session.received ++ round.offer)).1.Unconverted) :
    session.Settled (.processIn round.errno round.offer) := by
  refine takes.quiet.imp_right fun reach => ⟨fun _ => .inr ?_, reach.2⟩
  rwa [takes.delivered]

/-- Less than a whole request leaves the connection reading. -/
theorem Reads.waits (reads : session.Reads version) (takes : session.Takes round) {text : KeptGet}
    (small : text.serialise.length ≤ bufferMinSizeR)
    (part : session.received ++ round.offer <+: text.serialise)
    (missing : (session.received ++ round.offer).length < text.serialise.length) :
    ∃ conn call errno, session.conn.processIn round.errno round.offer = .ok (conn, call, errno) ∧
      call ≠ .modConnEventWrite ∧ Reads version ⟨conn, session.received ++ round.offer⟩ := by
  have waiting : session.conn.req.parseComplete = false := by
    rw [reads.req]
    refine text.unfinished small ((List.prefix_append _ _).trans part) ?_
    rw [List.length_append] at missing
    omega
  have settled := takes.settled (.inl (text.inHead_of_get text.get small part missing))
  obtain ⟨conn, call, errno, processed, next, called⟩ := reads.processIn waiting settled
  rw [takes.delivered] at next
  refine ⟨conn, call, errno, processed, fun write => ?_, next⟩
  have complete := called.mp write
  rw [next.req, text.unfinished small part missing] at complete
  cases complete

/-- The `recv` with the last byte of a request completes it, whatever it has behind that. -/
theorem Reads.completes (reads : session.Reads version) (takes : session.Takes round)
    {text : KeptGet} {behind : Bytes} (small : text.serialise.length ≤ bufferMinSizeR)
    (missing : session.received.length < text.serialise.length)
    (whole : session.received ++ round.offer = text.serialise ++ behind) :
    ∃ conn errno, session.conn.processIn round.errno round.offer =
        .ok (conn, .modConnEventWrite, errno) ∧
      conn.req = text.asRead ∧ conn.unread = behind ∧ conn.bufferR.length = bufferMinSizeR := by
  have waiting : session.conn.req.parseComplete = false := by
    rw [reads.req]
    refine text.unfinished small ?_ missing
    exact List.prefix_of_prefix_length_le ⟨_, whole⟩ (List.prefix_append _ _) missing.le
  have settled : session.Settled (.processIn round.errno round.offer) := by
    have alone := text.consume_serialise_behind small (bytes "HTTP/1.1") behind
    change HttpRequest.fresh.consume (text.serialise ++ behind) = _ at alone
    refine takes.settled (.inr (.inr (.inl ?_)))
    rw [whole, alone]
    change text.method.toHttp ≠ .post
    rw [text.get]
    nofun
  obtain ⟨conn, call, errno, processed, next, called⟩ := reads.processIn waiting settled
  rw [takes.delivered, whole] at next
  have read := text.consume_serialise_behind small version behind
  have req : conn.req = text.asRead := next.req.trans (congrArg Prod.fst read)
  have parsed : conn.reqParsedBytes = text.serialise.length := next.parsed.trans (congrArg Prod.snd read)
  have write : call = .modConnEventWrite := called.mpr (by rw [req]; rfl)
  refine ⟨conn, errno, write ▸ processed, req, ?_, next.size⟩
  rw [UserConn.unread, parsed, UserConn.held, next.received, List.drop_left]

/-- A finished response leaves the connection waiting, and whatever else the buffer held
is forgotten. -/
theorem outRun_forgets (events : List OutEvent) {conn : UserConn} {run : OutRun}
    (size : conn.bufferR.length = bufferMinSizeR) (keep : UserConn.keepAlive conn.req = true)
    (ran : conn.outRun order server events = .ok run) (finished : run.finished = true) :
    Reads [] ⟨run.conn, []⟩ := by
  induction events generalizing conn run with
  | nil =>
      cases ran
      cases finished
  | cons event later ih =>
      obtain ⟨result, out, ran⟩ := bind_eq_ok.mp ran
      obtain ⟨goesOn, ends⟩ := UserConn.processOut_input out
      cases done : result.finished with
      | true =>
          rw [if_pos done] at ran
          cases ran
          rcases ends done with ⟨-, -, before, input, left⟩ | ⟨closed, -⟩
          · dsimp only
            rw [left]
            obtain ⟨buffer, filled, request, parsed⟩ := before.connStateReset_receiving order
            exact .of_nothing ((congrArg List.length (buffer.trans input.bufferR)).trans size) filled
              request parsed
          · rw [keep] at closed
            cases closed
      | false =>
          rw [if_neg (by simp [done])] at ran
          obtain ⟨rest, runs, same⟩ := bind_eq_ok.mp ran
          cases same
          have input := goesOn done
          exact @ih result.conn rest (input.bufferR ▸ size) (input.req ▸ keep) runs finished

/-- Rounds that deliver nothing answer nothing. -/
theorem serve_nothing (rounds : List Round) {session : Session} {served : Served}
    (nothing : rounds.flatMap Round.offer = []) (ran : session.serve order server rounds = .ok served) :
    served.answered = [] := by
  induction rounds generalizing session served with
  | nil =>
      cases ran
      rfl
  | cons round later ih =>
      obtain ⟨offer, rest⟩ := List.append_eq_nil_iff.mp nothing
      have idle : session.conn.processIn round.errno round.offer =
          .ok (session.conn, .modConnEventRead, round.errno) := by
        rw [offer]
        exact UserConn.processIn_nothing (if_pos List.take_nil)
      rw [serve, idle] at ran
      simp only [bind, Except.bind, reduceCtorEq, if_false] at ran
      obtain ⟨served', runs, same⟩ := bind_eq_ok.mp ran
      cases same
      exact (ih rest runs : served'.answered = [])

theorem recv_of_serve {later : List Round} {served : Served}
    (ran : session.serve order server (round :: later) = .ok served) :
    (session, round) ∈ served.recvs := by
  obtain ⟨⟨conn, call, errno⟩, -, ran⟩ := bind_eq_ok.mp ran
  dsimp only at ran
  split at ran
  · obtain ⟨run, -, ran⟩ := bind_eq_ok.mp ran
    split at ran
    · obtain ⟨rest, -, same⟩ := bind_eq_ok.mp ran
      cases same
      exact List.mem_cons_self
    · cases ran
      exact List.mem_cons_self
  · obtain ⟨rest, -, same⟩ := bind_eq_ok.mp ran
    cases same
    exact List.mem_cons_self

/-- A round that completes a request, when every exchange comes to its end. -/
theorem serve_completed {later : List Round} {served : Served} {conn : UserConn} {errno : Errno}
    (processed : session.conn.processIn round.errno round.offer = .ok (conn, .modConnEventWrite, errno))
    (keep : UserConn.keepAlive conn.req = true)
    (ran : session.serve order server (round :: later) = .ok served) (complete : served.complete = true) :
    ∃ run rest, conn.outRun order server round.outs = .ok run ∧ run.finished = true ∧
      Session.serve order server ⟨run.conn, []⟩ later = .ok rest ∧
      served = ⟨(session, round) :: rest.recvs, ⟨conn.req, conn.unread, run.conn.held⟩ :: rest.answered,
        rest.complete⟩ := by
  rw [serve, processed] at ran
  simp only [bind, Except.bind, if_true, keep, Bool.and_true] at ran
  obtain ⟨run, out, ran⟩ := bind_eq_ok.mp ran
  cases finished : run.finished with
  | true =>
      rw [if_pos finished] at ran
      obtain ⟨rest, runs, same⟩ := bind_eq_ok.mp ran
      cases same
      exact ⟨run, rest, out, finished, runs, rfl⟩
  | false =>
      simp only [finished, Bool.false_eq_true, if_false] at ran
      cases ran
      cases complete

/-- What holds from a request of which `session.received` is there. -/
theorem Reads.serve (rounds : List Round) {session : Session} {version : Bytes} {served : Served}
    {texts : List KeptGet} (reads : session.Reads version)
    (small : ∀ text ∈ texts, text.serialise.length ≤ bufferMinSizeR)
    (missing : ∀ text ∈ texts.head?, session.received.length < text.serialise.length)
    (stream : session.received ++ rounds.flatMap Round.offer = texts.flatMap fun text => text.serialise)
    (ran : session.serve order server rounds = .ok served) (complete : served.complete = true)
    (takes : ∀ recv ∈ served.recvs, recv.1.Takes recv.2) :
    NothingLost texts served ↔ NoneBehind session.received.length (rounds.map Round.offer)
      (texts.map fun text => text.serialise) := by
  induction rounds generalizing session version served texts with
  | nil =>
      cases texts with
      | nil =>
          cases ran
          exact iff_of_true ⟨rfl, by simp⟩ (.of_none _ _)
      | cons text more =>
          have short : session.received.length < text.serialise.length := missing text rfl
          have widths := congrArg List.length stream
          simp only [List.flatMap_nil, List.append_nil, List.flatMap_cons, List.length_append] at widths
          omega
  | cons round later ih =>
      cases texts with
      | nil =>
          have none := serve_nothing (round :: later) (List.append_eq_nil_iff.mp stream).2 ran
          exact iff_of_true ⟨by rw [none]; rfl, by simp [none]⟩ (.of_none _ _)
      | cons text more =>
          have fits := small text List.mem_cons_self
          have short : session.received.length < text.serialise.length := missing text rfl
          have taken := takes _ (recv_of_serve ran)
          rw [List.flatMap_cons, List.flatMap_cons, ← List.append_assoc] at stream
          rw [List.map_cons, List.map_cons]
          by_cases whole : (session.received ++ round.offer).length < text.serialise.length
          · -- The request stays unfinished.
            have part : session.received ++ round.offer <+: text.serialise :=
              List.prefix_of_prefix_length_le ⟨_, stream⟩ (List.prefix_append _ _) whole.le
            obtain ⟨conn, call, errno, processed, waits, next⟩ := reads.waits taken fits part whole
            rw [Session.serve, processed] at ran
            simp only [bind, Except.bind, if_neg waits, taken.delivered] at ran
            obtain ⟨rest, runs, same⟩ := bind_eq_ok.mp ran
            cases same
            rw [List.length_append] at whole
            rw [NoneBehind.cons_iff whole.le, ← List.length_append]
            refine Iff.trans ⟨fun lost => ⟨lost.answered, lost.onward⟩,
              fun lost => ⟨lost.answered, lost.onward⟩⟩
              (@ih ⟨conn, session.received ++ round.offer⟩ version rest (text :: more) next small
                (fun first held => ?_) ?_ runs complete
                fun recv member => takes recv (List.mem_cons_of_mem _ member))
            · cases held
              rw [List.length_append]
              exact whole
            · rw [List.flatMap_cons]
              exact stream
          · -- The request is complete, with `behind` delivered together with its end.
            obtain ⟨behind, cut⟩ : text.serialise <+: session.received ++ round.offer :=
              List.prefix_of_prefix_length_le ⟨_, stream.symm⟩ (List.prefix_append _ _)
                (Nat.le_of_not_lt whole)
            obtain ⟨conn, errno, processed, req, unread, size⟩ :=
              reads.completes taken fits short cut.symm
            have keep : UserConn.keepAlive conn.req = true := req ▸ text.keepAlive
            obtain ⟨run, rest, out, finished, runs, rfl⟩ := serve_completed processed keep ran complete
            have next := outRun_forgets round.outs size keep out finished
            have widths := congrArg List.length cut
            simp only [List.length_append] at widths
            cases behind with
            | nil =>
                rw [List.append_nil] at cut
                rw [← cut, List.append_cancel_left_eq] at stream
                rw [List.length_nil] at widths
                rw [NoneBehind.cons_iff (by omega), ← widths, Nat.add_zero, NoneBehind.next_iff]
                exact Iff.trans (NothingLost.cons_iff req (next.received.trans unread.symm))
                  (@ih ⟨run.conn, []⟩ [] rest more next
                    (fun text member => small text (List.mem_cons_of_mem _ member))
                    (fun text _ => text.serialise_pos) stream runs complete
                    fun recv member => takes recv (List.mem_cons_of_mem _ member))
            | cons byte behind =>
                refine iff_of_false (fun lost => ?_) (NoneBehind.not_of_beyond short ?_)
                · have onward := lost.onward _ List.mem_cons_self
                  dsimp only at onward
                  rw [unread, UserConn.held, next.received] at onward
                  cases onward
                · rw [List.length_cons] at widths
                  omega

end Session

namespace UserConn

variable {order : HashOrder Bytes Bytes} {server : Server}

/-- Whatever the cut of the stream, nothing of it is lost exactly when no `recv` delivers bytes
behind the end of the request that it completes. -/
theorem served_all_iff {texts : List KeptGet} {rounds : List Round} {served : Served}
    (small : ∀ text ∈ texts, text.serialise.length ≤ bufferMinSizeR)
    (stream : rounds.flatMap Round.offer = texts.flatMap fun text => text.serialise)
    (ran : (Session.start order).serve order server rounds = .ok served)
    (complete : served.complete = true) (takes : ∀ recv ∈ served.recvs, recv.1.Takes recv.2) :
    NothingLost texts served ↔
      NoneBehind 0 (rounds.map Round.offer) (texts.map fun text => text.serialise) :=
  Session.start_reads.serve rounds small (fun text _ => text.serialise_pos) stream ran complete takes

/-- `GET /a.html`, with parameters, asking for the connection to be kept. -/
def keptPage (query : List (Bytes × Bytes))
    (query_key : ∀ pair ∈ query, pair.1 ≠ [] ∧ ¬ bytes "=" <:+: pair.1 ∧ QueryPart pair.1)
    (query_value : ∀ pair ∈ query, QueryPart pair.2) : KeptGet where
  method := .get
  path := bytes "/a.html"
  query := query
  version := .http11
  headers := [(bytes "Connection", bytes "keep-alive")]
  body := []
  path_ne := by decide
  path_space := by decide
  path_mark := by decide
  path_line := by decide
  query_key := query_key
  query_value := query_value
  header_key := by decide
  header_value := by decide
  get_body _ := rfl
  post_body := by decide
  get := rfl
  kept := by decide

def plainPage : KeptGet := keptPage [] (by simp) (by simp)

def queryPage : KeptGet := keptPage [(bytes "k", bytes "v")] (by decide) (by decide)

/-- A `recv` of these bytes, and a socket that takes everything. -/
def pageRound (offer : Bytes) : Round :=
  ⟨.clear, offer, [⟨fun _ => .ok ⟨false, bytes "hi"⟩, [1000, 1000], fun _ _ => 0⟩]⟩

/-- A request in two pieces, and one in one. -/
def pageRounds : List Round :=
  [pageRound (plainPage.serialise.take 20), pageRound (plainPage.serialise.drop 20),
    pageRound queryPage.serialise]

theorem pages_served_one_by_one :
    ∃ served, (Session.start (.front Bytes Bytes)).serve (.front Bytes Bytes) pageServer pageRounds =
        .ok served ∧
      served.answered.length = 2 ∧ NothingLost [plainPage, queryPage] served := by
  have outcome : ((Session.start (.front Bytes Bytes)).serve (.front Bytes Bytes) pageServer
      pageRounds).toOption.map (fun served => (served.complete, served.answered.length,
        decide (∀ recv ∈ served.recvs, recv.1.Takes recv.2))) = some (true, 2, true) := by
    decide +kernel
  obtain ⟨served, ran, all⟩ := ok_of_map outcome
  obtain ⟨complete, both⟩ := Prod.mk.inj all
  obtain ⟨length, takes⟩ := Prod.mk.inj both
  exact ⟨served, ran, length, (served_all_iff (by decide +kernel) (by decide +kernel) ran complete
    (of_decide_eq_true takes)).mpr (by decide +kernel)⟩

/-- The second request is not answered. -/
theorem pages_together_not_served :
    ∃ served, (Session.start (.front Bytes Bytes)).serve (.front Bytes Bytes) pageServer
        [pageRound (plainPage.serialise ++ queryPage.serialise)] = .ok served ∧
      served.complete = true ∧
      served.answered.map ServedRequest.req ≠ [plainPage.asRead, queryPage.asRead] := by
  have outcome : ((Session.start (.front Bytes Bytes)).serve (.front Bytes Bytes) pageServer
      [pageRound (plainPage.serialise ++ queryPage.serialise)]).toOption.map
        (fun served => (served.complete, served.answered.length)) = some (true, 1) := by
    decide +kernel
  obtain ⟨served, ran, both⟩ := ok_of_map outcome
  obtain ⟨complete, length⟩ := Prod.mk.inj both
  refine ⟨served, ran, complete, fun same => ?_⟩
  have count := congrArg List.length same
  rw [List.length_map, length] at count
  cases count

end UserConn

end LiteWebServer
