import LiteWebServer.UserConn.Pipeline
import LiteWebServer.UserConn.Progress
import LiteWebServer.UserConn.Reading

namespace LiteWebServer

open Data

/-! A client that asks, waits for the answer and asks again on the same connection. -/

/-- One request of a client: its text, the calls of `process_in` that read it, the outcome of
`open` and `fstat` for it, and the calls of `process_out` that answer it. -/
structure Talk where
  text : RequestText
  ins : List (Errno × Bytes)
  outcome : Except Errno OpenFile
  outs : List OutEvent

/-- The calls for one request, and whether the last one kept the connection. -/
structure Exchanged where
  run : OutRun
  kept : Bool

structure Talked where
  sent : Bytes
  finished : Bool

namespace Talk

variable (order : HashOrder Bytes Bytes) (server : Server)

/-- The request arrives as it is and fits into the buffer, and its answer is not disturbed. -/
structure Regular (talk : Talk) : Prop where
  arrives : (talk.ins.map Prod.snd).flatten = talk.text.serialise
  small : talk.text.serialise.length ≤ bufferMinSizeR
  undisturbed : UserConn.Undisturbed order server talk.text.asRead talk.outcome talk.outs

def keeps (talk : Talk) : Bool := UserConn.keepAlive talk.text.asRead

/-- The requests up to the first one that does not ask to keep the connection. -/
def heard : List Talk → List Talk
  | [] => []
  | talk :: later => talk :: if talk.keeps then heard later else []

/-- The bytes of the answer, and what the client reads of them. -/
def answer (talk : Talk) : Bytes × ReadResponse :=
  (UserConn.answerText order server talk.text.asRead talk.outcome,
    (UserConn.answerTo order server talk.text.asRead talk.outcome).message
      (UserConn.answerBody order server talk.text.asRead talk.outcome))

/-- The socket takes something in each of more calls than the answer has bytes. -/
structure Taken (talk : Talk) : Prop where
  takes : ∀ event ∈ talk.outs, 0 < UserConn.taken event.sends
  enough : (talk.answer order server).1.length < talk.outs.length

theorem heard_cons (talk : Talk) (later : List Talk) :
    heard (talk :: later) = talk :: if talk.keeps then heard later else [] := rfl

end Talk

theorem RequestText.asRead_noLineEnd (text : RequestText) : text.asRead.NoLineEnd where
  version := by
    change ¬ crlf <:+: text.version.text
    cases text.version <;> decide
  path := text.path_line
  headers key value found := by
    have inside : (key, value) ∈ text.headers := by
      have looked : text.headers.lookup key = some value := (text.headRead_header key).symm.trans found
      obtain ⟨front, back, whole, -⟩ := List.lookup_eq_some_iff.mp looked
      rw [whole]
      simp
    exact text.header_value _ inside

namespace Session

variable (order : HashOrder Bytes Bytes) (server : Server)

def exchange (session : Session) (talk : Talk) : Except Fault Exchanged := do
  let read ← session.readIn talk.ins
  if !read.conn.req.parseComplete then return ⟨⟨read.conn, [], false⟩, false⟩
  else
    let run ← read.conn.outRun order server talk.outs
    return ⟨run, run.finished && UserConn.keepAlive read.conn.req⟩

/-- The client waits for the whole answer, and asks again if the connection was kept. -/
def converse (session : Session) : List Talk → Except Fault Talked
  | [] => .ok ⟨[], true⟩
  | talk :: later => do
      let exchanged ← session.exchange order server talk
      if exchanged.kept then
        let rest ← converse ⟨exchanged.run.conn, []⟩ later
        return ⟨exchanged.run.sent ++ rest.sent, rest.finished⟩
      else return ⟨exchanged.run.sent, exchanged.run.finished⟩

/-- No call of `process_in` is within reach of what an older request left behind. -/
def SettledTalks (session : Session) : List Talk → Prop
  | [] => True
  | talk :: later =>
      session.SettledRun order (talk.ins.map fun piece => .processIn piece.1 piece.2) ∧
        match session.exchange order server talk with
        | .ok exchanged =>
            exchanged.kept = true → SettledTalks ⟨exchanged.run.conn, []⟩ later
        | .error _ => True

instance decidableSettledTalks (talks : List Talk) (session : Session) :
    Decidable (session.SettledTalks order server talks) :=
  match talks with
  | [] => .isTrue trivial
  | talk :: later =>
      let _ : Decidable (match session.exchange order server talk with
          | .ok exchanged =>
              exchanged.kept = true → SettledTalks order server ⟨exchanged.run.conn, []⟩ later
          | .error _ => True) :=
        match session.exchange order server talk with
        | .ok exchanged =>
            let _ := decidableSettledTalks later ⟨exchanged.run.conn, []⟩
            inferInstanceAs (Decidable (exchanged.kept = true → _))
        | .error _ => .isTrue trivial
      inferInstanceAs (Decidable (_ ∧ _))

/-- The connection waits for a request, and holds nothing of an older one but the bytes that
stand in the buffer. -/
structure Ready (session : Session) : Prop where
  reads : ∃ version, session.Reads version
  nothing : session.received = []
  idle : session.conn.Idle
  counted : session.conn.Counted

variable {order server} {session : Session}

theorem start_ready : (start order).Ready where
  reads := ⟨bytes "HTTP/1.1", start_reads⟩
  nothing := rfl
  idle := UserConn.fresh_idle order
  counted := rfl

theorem Ready.connStateReset {conn : UserConn} (size : conn.bufferR.length = bufferMinSizeR)
    (counted : (conn.connStateReset order).Counted) : Ready ⟨conn.connStateReset order, []⟩ := by
  obtain ⟨buffer, filled, request, parsed⟩ := conn.connStateReset_receiving order
  exact ⟨⟨[], .of_nothing ((congrArg List.length buffer).trans size) filled request parsed⟩, rfl,
    UserConn.connStateReset_idle order conn, counted⟩

/-- A request that is read on a connection that waits for one. -/
theorem Ready.readIn (ready : session.Ready) {talk : Talk} (regular : talk.Regular order server)
    (settled : session.SettledRun order (talk.ins.map fun piece => .processIn piece.1 piece.2)) :
    ∃ read, session.readIn talk.ins = .ok read ∧ read.conn.req = talk.text.asRead ∧
      read.conn.bufferR.length = bufferMinSizeR ∧ read.conn.Idle ∧ read.conn.Counted := by
  obtain ⟨version, reads⟩ := ready.reads
  have missing : session.received.length < talk.text.serialise.length := by
    rw [ready.nothing]
    exact talk.text.serialise_pos
  have whole : session.received ++ (talk.ins.map Prod.snd).flatten = talk.text.serialise := by
    rw [ready.nothing, List.nil_append, regular.arrives]
  obtain ⟨read, ran, held, -, req, bufferR, bufferRBytes, req', reqParsedBytes, frame⟩ :=
    reads.readIn talk.ins whole regular.small missing settled
  refine ⟨read, ran, req, held.size, ?_, ?_⟩
  · rw [frame]
    exact ⟨ready.idle.baseRspSnd, ready.idle.bodySnd, ready.idle.rspBaseSndBytes,
      ready.idle.rspBodySndBytes, ready.idle.fileFd⟩
  · rw [frame]
    exact ready.counted.of_same rfl rfl

theorem exchange_eq {talk : Talk} {read : Session} {run : OutRun}
    (ran : session.readIn talk.ins = .ok read) (complete : read.conn.req.parseComplete = true)
    (answered : read.conn.outRun order server talk.outs = .ok run) :
    session.exchange order server talk =
      .ok ⟨run, run.finished && UserConn.keepAlive read.conn.req⟩ := by
  simp [Session.exchange, ran, complete, answered, bind, Except.bind, pure, Except.pure]

/-- One exchange on a connection that waits for a request. -/
theorem Ready.exchange (ready : session.Ready) {talk : Talk} (regular : talk.Regular order server)
    (settled : session.SettledRun order (talk.ins.map fun piece => .processIn piece.1 piece.2)) :
    ∃ exchanged, session.exchange order server talk = .ok exchanged ∧
      exchanged.run.sent <+: (talk.answer order server).1 ∧
      (exchanged.run.finished = true → exchanged.run.sent = (talk.answer order server).1) ∧
      (talk.Taken order server → exchanged.run.finished = true) ∧
      exchanged.kept = (exchanged.run.finished && talk.keeps) ∧
      (exchanged.kept = true → Ready ⟨exchanged.run.conn, []⟩) := by
  obtain ⟨read, ran, req, size, idle, counted⟩ := ready.readIn regular settled
  have undisturbed := regular.undisturbed
  rw [← req] at undisturbed
  obtain ⟨run, answered, inOrder, all⟩ := idle.answers undisturbed
  have complete : read.conn.req.parseComplete = true := by rw [req]; rfl
  refine ⟨_, exchange_eq ran complete answered, req ▸ inOrder, req ▸ all, fun taken => ?_, ?_,
    fun kept => ?_⟩
  · obtain ⟨run', answered', finished, -⟩ := idle.answers_whole counted undisturbed taken.takes
      (by rw [req]; exact taken.enough)
    obtain rfl := Except.ok.inj (answered.symm.trans answered')
    exact finished
  · rw [req]
    rfl
  · obtain ⟨finished, keep⟩ := Bool.and_eq_true_iff.mp kept
    obtain ⟨before, input, reset⟩ := UserConn.outRun_kept talk.outs answered finished keep
    have counted' := counted.outRun talk.outs answered
    dsimp only
    rw [reset] at counted' ⊢
    exact .connStateReset (by rw [input.bufferR, size]) counted'

theorem Ready.converse (talks : List Talk) {session : Session} (ready : session.Ready)
    (regular : ∀ talk ∈ Talk.heard talks, talk.Regular order server)
    (settled : session.SettledTalks order server talks) :
    ∃ talked, session.converse order server talks = .ok talked ∧
      talked.sent <+: ((Talk.heard talks).map (Talk.answer order server)).flatMap Prod.fst ∧
      (talked.finished = true →
        talked.sent = ((Talk.heard talks).map (Talk.answer order server)).flatMap Prod.fst) := by
  induction talks generalizing session with
  | nil => exact ⟨_, rfl, List.nil_prefix, fun _ => rfl⟩
  | cons talk later ih =>
      rw [Talk.heard_cons] at regular
      obtain ⟨here, further⟩ := settled
      obtain ⟨exchanged, ran, inOrder, all, -, kept, next⟩ :=
        ready.exchange (regular talk List.mem_cons_self) here
      rw [ran] at further
      cases keeps : exchanged.kept with
      | false =>
          refine ⟨⟨exchanged.run.sent, exchanged.run.finished⟩, ?_, ?_, fun finished => ?_⟩
          · simp [Session.converse, ran, keeps, bind, Except.bind, pure, Except.pure]
          · rw [Talk.heard_cons, List.map_cons, List.flatMap_cons]
            exact inOrder.trans (List.prefix_append _ _)
          · -- It was finished and not kept, so nothing behind it is heard.
            have last : talk.keeps = false := by
              rw [keeps] at kept
              dsimp only at finished
              simpa [finished] using kept.symm
            rw [Talk.heard_cons, last, if_neg Bool.false_ne_true]
            simpa using all finished
      | true =>
          rw [keeps] at kept
          obtain ⟨finished, keep⟩ := Bool.and_eq_true_iff.mp kept.symm
          rw [keep, if_pos rfl] at regular
          obtain ⟨talked, spoke, inOrder', all'⟩ := ih (next keeps)
            (fun talk member => regular talk (List.mem_cons_of_mem _ member)) (further keeps)
          refine ⟨⟨exchanged.run.sent ++ talked.sent, talked.finished⟩, ?_, ?_, fun done => ?_⟩
          · simp [Session.converse, ran, keeps, spoke, bind, Except.bind, pure, Except.pure]
          · rw [Talk.heard_cons, keep, if_pos rfl, List.map_cons, List.flatMap_cons, all finished]
            exact (List.prefix_append_right_inj _).mpr inOrder'
          · rw [Talk.heard_cons, keep, if_pos rfl, List.map_cons, List.flatMap_cons, all finished,
              all' done]

/-- When every answer is taken, the client gets to its last request. -/
theorem Ready.converse_taken (talks : List Talk) {session : Session} (ready : session.Ready)
    (regular : ∀ talk ∈ Talk.heard talks, talk.Regular order server)
    (settled : session.SettledTalks order server talks)
    (taken : ∀ talk ∈ Talk.heard talks, talk.Taken order server) {talked : Talked}
    (spoke : session.converse order server talks = .ok talked) : talked.finished = true := by
  induction talks generalizing session talked with
  | nil =>
      cases spoke
      rfl
  | cons talk later ih =>
      rw [Talk.heard_cons] at regular taken
      obtain ⟨here, further⟩ := settled
      obtain ⟨exchanged, ran, -, -, whole, kept, next⟩ :=
        ready.exchange (regular talk List.mem_cons_self) here
      rw [ran] at further
      rw [whole (taken talk List.mem_cons_self), Bool.true_and] at kept
      rw [Session.converse, ran] at spoke
      simp only [bind, Except.bind] at spoke
      split at spoke
      · rename_i keeps
        rw [kept.symm.trans keeps, if_pos rfl] at regular taken
        obtain ⟨rest, spoke', same⟩ := bind_eq_ok.mp spoke
        cases same
        have finished : rest.finished = true :=
          ih (next keeps) (fun talk member => regular talk (List.mem_cons_of_mem _ member))
            (further keeps) (fun talk member => taken talk (List.mem_cons_of_mem _ member)) spoke'
        exact finished
      · cases spoke
        exact whole (taken talk List.mem_cons_self)

end Session

/-- What the client has of these answers.  The responses that it reads are these, one by one
and in their order, and it reads all of them once the last exchange is finished. -/
structure Answered (answers : List (Bytes × ReadResponse)) (talked : Talked) : Prop where
  inOrder : talked.sent <+: answers.flatMap Prod.fst
  read : ∀ count messages rest, readMany readResponse count talked.sent = some (messages, rest) →
    count ≤ answers.length ∧ messages = (answers.map Prod.snd).take count
  all : talked.finished = true →
    readMany readResponse answers.length talked.sent = some (answers.map Prod.snd, [])

theorem Answered.of_sent {answers : List (Bytes × ReadResponse)} {talked : Talked}
    (each : ∀ entry ∈ answers, Writes readResponse entry.1 entry.2)
    (inOrder : talked.sent <+: answers.flatMap Prod.fst)
    (all : talked.finished = true → talked.sent = answers.flatMap Prod.fst) : Answered answers talked := by
  refine ⟨inOrder, fun count messages rest read => ?_, fun finished => ?_⟩
  · exact readResponse_selfEnding.readMany_part each inOrder read
  · have written := readMany_written _ each []
    rw [List.append_nil, ← all finished] at written
    exact written

variable {order : HashOrder Bytes Bytes} {server : Server}

theorem Talk.answer_writes (registers : server.Registers (UserConn.BuildsPlainly order))
    {talks : List Talk} (regular : ∀ talk ∈ talks, talk.Regular order server) :
    ∀ entry ∈ talks.map (Talk.answer order server), Writes readResponse entry.1 entry.2 := by
  intro entry member
  obtain ⟨talk, inside, rfl⟩ := List.mem_map.mp member
  exact UserConn.answerTo_writes registers talk.text.asRead_noLineEnd
    (regular talk inside).undisturbed

/-- Whatever the socket takes at a time, a client that waits for its answers gets the answer
to each request that is heard. -/
theorem Session.converse_answers (registers : server.Registers (UserConn.BuildsPlainly order))
    {talks : List Talk} (regular : ∀ talk ∈ Talk.heard talks, talk.Regular order server)
    (settled : (start order).SettledTalks order server talks) :
    ∃ talked, (start order).converse order server talks = .ok talked ∧
      Answered ((Talk.heard talks).map (Talk.answer order server)) talked := by
  obtain ⟨talked, ran, inOrder, all⟩ := start_ready.converse talks regular settled
  exact ⟨talked, ran, .of_sent (Talk.answer_writes registers regular) inOrder all⟩

/-- The page without asking to keep the connection. -/
def lastPage : RequestText :=
  { UserConn.plainPage.toRequestText with
    headers := [(bytes "Connection", bytes "close")],
    header_key := by decide,
    header_value := by decide,
    post_body := by decide }

/-- If every answer is taken, the client has read one response for each request that is
heard, and there is nothing behind the last one. -/
theorem Session.converse_whole (registers : server.Registers (UserConn.BuildsPlainly order))
    {talks : List Talk} (regular : ∀ talk ∈ Talk.heard talks, talk.Regular order server)
    (settled : (start order).SettledTalks order server talks)
    (taken : ∀ talk ∈ Talk.heard talks, talk.Taken order server) :
    ∃ talked, (start order).converse order server talks = .ok talked ∧
      readMany readResponse (Talk.heard talks).length talked.sent =
        some ((Talk.heard talks).map fun talk => (talk.answer order server).2, []) := by
  obtain ⟨talked, ran, inOrder, all⟩ := start_ready.converse talks regular settled
  have finished := start_ready.converse_taken talks regular settled taken ran
  have answered := Answered.of_sent (Talk.answer_writes registers regular) inOrder all
  have read := answered.all finished
  rw [List.length_map, List.map_map] at read
  exact ⟨talked, ran, read⟩

/-- A page for a request in two pieces, its head in the first call and a byte in each of the
others; then the page is gone.  The second request closes the connection, so that a third one
is not heard. -/
def askThrice : List Talk :=
  let first := UserConn.plainPage.toRequestText
  let finds (sends : List Nat) : OutEvent := ⟨fun _ => .ok ⟨false, bytes "hello"⟩, sends, fun _ _ => 0⟩
  let misses (sends : List Nat) : OutEvent := ⟨fun _ => .error .enoent, sends, fun _ _ => 0⟩
  [⟨first, [(.clear, bytes "GET /a.html HT"), (.clear, first.serialise.drop 14)],
      .ok ⟨false, bytes "hello"⟩, finds [100, 31] :: List.replicate 140 (finds [1])⟩,
    ⟨lastPage, [(.clear, lastPage.serialise)], .error .enoent, List.replicate 250 (misses [100])⟩,
    ⟨first, [], .error .enoent, []⟩]

def askServer : Server := .builtin (.front Bytes Bytes) (bytes "/www") fun _ => none

theorem askServer_plain : askServer.Registers (UserConn.BuildsPlainly (.front Bytes Bytes)) :=
  UserConn.builtin_plain fun _ _ _ _ found => by cases found

theorem askThrice_regular :
    ∀ talk ∈ Talk.heard askThrice, talk.Regular (.front Bytes Bytes) askServer := by
  have two : Talk.heard askThrice = askThrice.take 2 := rfl
  rw [two]
  intro talk member
  rcases List.mem_cons.mp member with rfl | member
  · refine ⟨by decide +kernel, by decide +kernel, fun event inside => ?_, by decide +kernel,
      fun _ => ⟨_, rfl, rfl⟩, fun _ event first => ?_⟩
    · rcases List.mem_cons.mp inside with rfl | inside
      · rfl
      · rw [List.eq_of_mem_replicate inside]
    · cases first
      exact .inl (by decide +kernel)
  · rw [List.mem_singleton.mp member]
    refine ⟨by decide +kernel, by decide +kernel, fun event inside => ?_, by decide +kernel,
      fun isFile => ?_, fun isFile => ?_⟩
    · rw [List.eq_of_mem_replicate inside]
    · exact absurd isFile (by decide +kernel)
    · exact absurd isFile (by decide +kernel)

theorem converse_answers_twice :
    ∃ talked, (Session.start (.front Bytes Bytes)).converse (.front Bytes Bytes) askServer askThrice =
        .ok talked ∧ (Talk.heard askThrice).length = 2 ∧
      Answered ((Talk.heard askThrice).map (Talk.answer (.front Bytes Bytes) askServer)) talked := by
  obtain ⟨talked, ran, answered⟩ :=
    Session.converse_answers askServer_plain askThrice_regular (by decide +kernel)
  exact ⟨talked, ran, rfl, answered⟩

theorem converse_whole_twice :
    ∃ talked, (Session.start (.front Bytes Bytes)).converse (.front Bytes Bytes) askServer askThrice =
        .ok talked ∧
      readMany readResponse 2 talked.sent = some ((askThrice.take 2).map fun talk =>
        (talk.answer (.front Bytes Bytes) askServer).2, []) := by
  refine Session.converse_whole askServer_plain askThrice_regular (by decide +kernel) ?_
  have two : Talk.heard askThrice = askThrice.take 2 := rfl
  rw [two]
  intro talk member
  rcases List.mem_cons.mp member with rfl | member
  · refine ⟨fun event inside => ?_, by decide +kernel⟩
    rcases List.mem_cons.mp inside with rfl | inside
    · decide
    · rw [List.eq_of_mem_replicate inside]
      decide
  · rw [List.mem_singleton.mp member]
    refine ⟨fun event inside => ?_, by decide +kernel⟩
    rw [List.eq_of_mem_replicate inside]
    decide

end LiteWebServer
