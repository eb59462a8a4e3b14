import LiteWebServer.ConnLoop.Hosting
import LiteWebServer.UserConn.Conversation

namespace LiteWebServer

open Data

/-! A client of a loop with many clients gets the answers to its requests. -/

/-- What the loop tells the connection in an exchange. -/
def Talk.events (talk : Talk) : List LinkEvent :=
  (talk.ins.map fun piece => .processIn piece.1 piece.2) ++
    talk.outs.map fun event => .processOut event.answers

namespace Link

variable {order : HashOrder Bytes Bytes} {server : Server} {link after : Link} {sent : Bytes}

theorem processIn_call {conn after : UserConn} {errno errno' : Errno} {offer : Bytes} {call : LoopCall}
    (ran : conn.processIn errno offer = .ok (after, call, errno')) : call ≠ .connClose := by
  by_cases nothing : offer.take (sizeSub conn.bufferR.length conn.bufferRBytes) = []
  · rw [UserConn.processIn_nothing (if_pos nothing)] at ran
    cases ran
    simp
  · obtain ⟨req, more, -, -, armed⟩ := UserConn.processIn_parsed (if_neg nothing) ran
    rw [armed]
    split <;> simp

/-- A connection that is told to read does what `process_in` does. -/
theorem speak_processIn {errno errno' : Errno} {offer : Bytes} {conn : UserConn} {call : LoopCall}
    (ran : link.conn.processIn errno offer = .ok (conn, call, errno'))
    (spoke : link.speak order server (.processIn errno offer) = some (after, sent)) :
    link.arming = .read ∧ after.conn = conn ∧ after.arming = call.arming ∧ sent = [] := by
  obtain ⟨⟨after', shown⟩, moved, same⟩ := Option.map_eq_some_iff.mp spoke
  obtain ⟨rfl, rfl⟩ := Prod.mk.inj same
  rw [Link.next] at moved
  split at moved
  · rename_i reading
    have made : link.fire.processIn errno offer = .ok ({ link.fire with conn }.call call) := by
      have shape : link.fire.conn.processIn errno offer = .ok (conn, call, errno') := ran
      rw [processIn_eq, shape]
      rfl
    rw [made] at moved
    cases moved
    exact ⟨reading, rfl, fire_call_arming _ _, rfl⟩
  · cases moved

/-- A connection that is told to write does what `process_out` does. -/
theorem speak_processOut {event : OutEvent} {result : OutResult}
    (ran : link.conn.processOut order server event = .ok result)
    (spoke : link.speak order server (.processOut event.answers) = some (after, sent)) :
    link.arming = .write ∧ after.conn = result.conn ∧ after.arming = result.call.arming ∧
      sent = result.sent := by
  obtain ⟨⟨after', shown⟩, moved, same⟩ := Option.map_eq_some_iff.mp spoke
  obtain ⟨rfl, rfl⟩ := Prod.mk.inj same
  rw [Link.next] at moved
  split at moved
  · rename_i writing
    cases moved
    have any : link.conn.processOutAny order server event.answers = result := UserConn.processOut_any ran
    have fired : link.fire.conn.processOutAny order server event.answers = result := any
    rw [Link.processOut, fired, Link.output, any]
    exact ⟨writing, rfl, fire_call_arming _ _, rfl⟩
  · cases moved

/-- A connection that is told to read, as long as it asks for that, is where `readIn` is. -/
theorem follow_readIn (ins : List (Errno × Bytes)) {session read : Session} {link : Link}
    {outputs : List Bytes} (same : link.conn = session.conn) (ran : session.readIn ins = .ok read)
    (followed : System.follow (speak order server) link
      (ins.map fun piece => .processIn piece.1 piece.2) = some (after, outputs)) :
    after.conn = read.conn ∧ outputs.flatten = [] ∧ (link.arming ≠ .closed → after.arming ≠ .closed) := by
  induction ins generalizing session link outputs with
  | nil =>
      cases followed
      cases ran
      exact ⟨same, rfl, id⟩
  | cons piece later ih =>
      obtain ⟨errno, offer⟩ := piece
      obtain ⟨⟨conn, call, errno'⟩, processed, ran⟩ := bind_eq_ok.mp ran
      obtain ⟨between, said, outputs', spoke, further, rfl⟩ := System.follow_cons.mp followed
      rw [← same] at processed
      obtain ⟨-, left, armed, rfl⟩ := speak_processIn processed spoke
      have open_ : between.arming ≠ .closed := by
        rw [armed]
        cases call with
        | connClose => exact absurd rfl (processIn_call processed)
        | modConnEventRead => simp [LoopCall.arming]
        | modConnEventWrite => simp [LoopCall.arming]
      dsimp only at ran
      split at ran
      · rename_i write
        cases ran
        cases later with
        | nil =>
            cases further
            exact ⟨left, rfl, fun _ => open_⟩
        | cons piece later =>
            -- It is armed for writing, and told to read no more.
            obtain ⟨_, _, _, spoke', -, -⟩ := System.follow_cons.mp further
            obtain ⟨_, moved, -⟩ := Option.map_eq_some_iff.mp spoke'
            rw [Link.next, armed, write, if_neg (by simp [LoopCall.arming])] at moved
            cases moved
      · obtain ⟨left', silent, stays⟩ := ih left ran further
        exact ⟨left', by rw [List.flatten_cons, silent]; rfl, fun _ => stays open_⟩

/-- A connection that is told to write, as long as it asks for that, sends what `outRun` does.
It asks to read again when the run has finished on a connection that is kept. -/
theorem follow_outRun (events : List OutEvent) {conn : UserConn} {link : Link} {run : OutRun}
    {outputs : List Bytes} (same : link.conn = conn) (ran : conn.outRun order server events = .ok run)
    (followed : System.follow (speak order server) link
      (events.map fun event => .processOut event.answers) = some (after, outputs)) :
    after.conn = run.conn ∧ outputs.flatten = run.sent ∧
      (link.arming ≠ .read → after.arming = .read →
        run.finished = true ∧ UserConn.keepAlive conn.req = true) ∧
      (link.arming = .write → after.arming ≠ .write → run.finished = true) := by
  induction events generalizing conn link run outputs with
  | nil =>
      cases followed
      cases ran
      exact ⟨same, rfl, fun waits reads => absurd reads waits, fun waits ends => absurd waits ends⟩
  | cons event later ih =>
      obtain ⟨result, out, ran⟩ := bind_eq_ok.mp ran
      obtain ⟨between, said, outputs', spoke, further, rfl⟩ := System.follow_cons.mp followed
      rw [← same] at out
      obtain ⟨-, left, armed, rfl⟩ := speak_processOut out spoke
      obtain ⟨unfinished, kept⟩ := UserConn.processOut_input out
      split at ran
      · rename_i finished
        cases ran
        cases later with
        | nil =>
            cases further
            refine ⟨left, by simp, fun _ reads => ⟨rfl, ?_⟩, fun _ _ => rfl⟩
            rcases kept finished with ⟨keep, -, -⟩ | ⟨-, closes⟩
            · rwa [← same]
            · rw [armed, closes] at reads
              cases reads
        | cons event' later =>
            -- It has finished, and is told to write no more.
            obtain ⟨_, _, _, spoke', -, -⟩ := System.follow_cons.mp further
            obtain ⟨_, moved, -⟩ := Option.map_eq_some_iff.mp spoke'
            have other : between.arming ≠ .write := by
              rw [armed]
              rcases kept finished with ⟨-, reads, -⟩ | ⟨-, closes⟩
              · simp [reads, LoopCall.arming]
              · simp [closes, LoopCall.arming]
            rw [Link.next, if_neg other] at moved
            cases moved
      · rename_i more
        obtain ⟨run', ran', same'⟩ := bind_eq_ok.mp ran
        cases same'
        have goesOn := Bool.eq_false_iff.mpr more
        have call : result.call = .modConnEventWrite := by
          obtain ⟨_, -, ⟨-, -, call⟩ | ⟨done, -⟩ | ⟨done, -⟩⟩ := UserConn.processOut_did out
          · exact call
          · exact absurd done more
          · exact absurd done more
        obtain ⟨left', sent, reads, ends⟩ := ih left ran' further
        have input := unfinished goesOn
        rw [armed, call] at reads ends
        rw [← same, ← input.req]
        exact ⟨left', by rw [List.flatten_cons, sent],
          fun _ => reads (by simp [LoopCall.arming]), fun _ => ends rfl⟩

/-- A request that is told is told to a connection that asks to read. -/
theorem reading_of_talk {talk : Talk} (regular : talk.Regular order server) {later : List LinkEvent}
    {outputs : List Bytes}
    (followed : System.follow (speak order server) link (talk.events ++ later) = some (after, outputs)) :
    link.arming = .read := by
  cases shape : talk.ins with
  | nil =>
      have width : crlf.length = 2 := rfl
      have empty := congrArg List.length regular.arrives
      rw [shape, RequestText.serialise] at empty
      simp only [List.map_nil, List.flatten_nil, List.length_nil, List.length_append, width] at empty
      omega
  | cons piece rest =>
      rw [Talk.events, shape, List.map_cons, List.cons_append, List.cons_append] at followed
      obtain ⟨_, _, _, spoke, -, -⟩ := System.follow_cons.mp followed
      obtain ⟨_, moved, -⟩ := Option.map_eq_some_iff.mp spoke
      rw [Link.next] at moved
      split at moved
      · assumption
      · cases moved

/-- What a connection sends when it is told these requests, and nothing else, is what the
conversation sends. -/
theorem follow_converse (talks : List Talk) {session : Session} {link : Link} {outputs : List Bytes}
    (ready : session.Ready) (phase : link.InPhase) (same : link.conn = session.conn)
    (regular : ∀ talk ∈ talks, talk.Regular order server)
    (settled : session.SettledTalks order server talks)
    (followed : System.follow (speak order server) link (talks.flatMap Talk.events) =
      some (after, outputs)) :
    ∃ talked, session.converse order server talks = .ok talked ∧ outputs.flatten = talked.sent ∧
      (after.arming ≠ .write → talked.finished = true) ∧ Talk.heard talks = talks := by
  induction talks generalizing session link outputs with
  | nil =>
      cases followed
      exact ⟨_, rfl, rfl, fun _ => rfl, rfl⟩
  | cons talk later ih =>
      have here := regular talk List.mem_cons_self
      obtain ⟨settledHere, further⟩ := settled
      rw [List.flatMap_cons] at followed
      have reading := reading_of_talk here followed
      obtain ⟨answered, said, said', first, rest, rfl⟩ := System.follow_append followed
      obtain ⟨asked, silence, sent, reads, writes, rfl⟩ := System.follow_append first
      obtain ⟨read, ran, req, -, idle, -⟩ := ready.readIn here settledHere
      obtain ⟨left, silent, stays⟩ := follow_readIn talk.ins same ran reads
      have complete : read.conn.req.parseComplete = true := by rw [req]; rfl
      have writing : asked.arming = .write := by
        have open_ := stays (by simp [reading])
        exact ((phase.follow reads).armed_iff open_).1.mpr (by rw [left, complete])
      have undisturbed := here.undisturbed
      rw [← req] at undisturbed
      obtain ⟨run, answers, -, -⟩ := idle.answers undisturbed
      obtain ⟨left', sent', again, ends⟩ := follow_outRun talk.outs left answers writes
      have exchange := Session.exchange_eq ran complete answers
      obtain ⟨exchanged, exchange', -, -, -, kept, next⟩ := ready.exchange here settledHere
      obtain rfl := Except.ok.inj (exchange.symm.trans exchange')
      dsimp only at kept next
      rw [exchange] at further
      rw [List.flatten_append, List.flatten_append, silent, List.nil_append, sent', Session.converse,
        exchange]
      cases keeps : run.finished && UserConn.keepAlive read.conn.req with
      | false =>
          -- The connection asks to read no more, so that there is nothing later.
          have last : later = [] := by
            cases later with
            | nil => rfl
            | cons talk' later =>
                rw [List.flatMap_cons] at rest
                have reading' := reading_of_talk
                  (regular talk' (List.mem_cons_of_mem _ List.mem_cons_self)) rest
                obtain ⟨finished, keep⟩ := again (by simp [writing]) reading'
                simp [finished, keep] at keeps
          subst last
          cases rest
          refine ⟨⟨run.sent, run.finished⟩, rfl, by simp, ends writing, ?_⟩
          rw [Talk.heard_cons]
          split <;> rfl
      | true =>
          obtain ⟨talked, spoke, sent'', ends', heard⟩ :=
            ih (next keeps) ((phase.follow reads).follow writes) left'
              (fun talk member => regular talk (List.mem_cons_of_mem _ member)) (further keeps) rest
          refine ⟨⟨run.sent ++ talked.sent, talked.finished⟩, ?_, by rw [sent''], ends', ?_⟩
          · simp [spoke, bind, Except.bind, pure, Except.pure]
          · rw [keeps] at kept
            rw [Talk.heard_cons, if_pos (Bool.and_eq_true_iff.mp kept.symm).2, heard]

/-- A connection that was told these requests has sent the answers to them. -/
theorem follows_answered (registers : server.Registers (UserConn.BuildsPlainly order))
    {trace : List (LinkEvent × Bytes)} (follows : Follows (speak order server) (.fresh order) trace after)
    {talks : List Talk} (asked : trace.map Prod.fst = talks.flatMap Talk.events)
    (regular : ∀ talk ∈ talks, talk.Regular order server)
    (settled : (Session.start order).SettledTalks order server talks) :
    ∃ finished, Answered (talks.map (Talk.answer order server)) ⟨(trace.map Prod.snd).flatten, finished⟩ ∧
      (after.arming ≠ .write → finished = true) := by
  unfold Follows at follows
  rw [asked] at follows
  obtain ⟨talked, spoke, sent, ends, heard⟩ :=
    follow_converse talks Session.start_ready fresh_inPhase rfl regular settled follows
  have regular' : ∀ talk ∈ Talk.heard talks, talk.Regular order server := by rwa [heard]
  obtain ⟨talked', spoke', inOrder, all⟩ := Session.start_ready.converse talks regular' settled
  obtain rfl := Except.ok.inj (spoke.symm.trans spoke')
  rw [heard] at inOrder all
  refine ⟨talked.finished, ?_, ends⟩
  rw [sent]
  exact .of_sent (Talk.answer_writes registers regular) inOrder all

end Link

namespace Host

variable {pq : PriorityQueue TimerNode TimerNode.expire} {order : HashOrder Bytes Bytes}
  {server : Server} {host : Host pq} {fd : Int}

/-- A connection that is closed or waits for another request does not ask to write. -/
theorem Shown.rests {link : Link} (shown : Shown order host fd link) (phase : link.InPhase)
    (rests : fd ∈ host.loop.epoll →
      (host.loop.connOf (makeConn order) fd).req.parseComplete = false) : link.arming ≠ .write := by
  by_cases member : fd ∈ host.loop.epoll
  · have waits := rests member
    rw [connOf_eq, shown.conn member] at waits
    have reading := (phase.armed_iff (shown.registered.mp member)).2.mpr waits
    simp [reading]
  · have closed : link.arming = .closed := by
      by_contra open_
      exact member (shown.registered.mpr open_)
    simp [closed]

/-- Whatever the other clients of the loop do: what is sent to a socket that was told these
requests since it was registered is the answers to them, each once and in their order.  They
are complete when the socket is closed or waits for another request. -/
theorem client_answered (registers : server.Registers (UserConn.BuildsPlainly order))
    {notes : List HostNote} (run : (system order server pq).Runs notes host)
    {trace : List (LinkEvent × Bytes)} (told : session (HostNote.mark fd) notes = some trace)
    {talks : List Talk} (asked : trace.map Prod.fst = talks.flatMap Talk.events)
    (regular : ∀ talk ∈ talks, talk.Regular order server)
    (settled : (Session.start order).SettledTalks order server talks) :
    ∃ finished, Answered (talks.map (Talk.answer order server)) ⟨(trace.map Prod.snd).flatten, finished⟩ ∧
      ((fd ∈ host.loop.epoll → (host.loop.connOf (makeConn order) fd).req.parseComplete = false) →
        finished = true) := by
  obtain ⟨link, follows, shown⟩ := hosts.alone (fun run => tidy run) run told
  obtain ⟨finished, answered, ends⟩ := Link.follows_answered registers follows asked regular settled
  exact ⟨finished, answered,
    fun rests => ends (shown.rests (Link.fresh_inPhase.follow follows) rests)⟩

/-- A connection is told what the choice of the step says. -/
theorem next_told {turn : HostTurn} {after : Host pq} {event : LinkEvent} {sent : Bytes}
    (stepped : host.next order server turn = some (after, .told fd event sent)) :
    ∃ choice, turn = .loop choice ∧ (event = .processIn choice.errno choice.offer ∨
      event = .processOut choice.answers ∨ event = .handleConnClose) := by
  have handled {fd' : Int} {flags : ReadyFlags} {rest : List ReadyEvent} {choice : HostChoice}
      {event' : LinkEvent} {link : Except Fault Link}
      (stepped : host.handled order server fd' flags rest choice event' link =
        some (after, .told fd event sent)) : event = event' := by
    unfold Host.handled at stepped
    split at stepped
    · cases stepped
      rfl
    · cases stepped
  cases turn with
  | addClisockToQueue other =>
      rw [Host.next] at stepped
      split at stepped <;> cases stepped
  | cmdSendAddFd =>
      obtain ⟨_, -, same⟩ := Option.map_eq_some_iff.mp stepped
      cases same
  | cmdSend cmd =>
      rw [Host.next] at stepped
      split at stepped <;> cases stepped
  | loop choice =>
      refine ⟨choice, rfl, ?_⟩
      rw [Host.next] at stepped
      unfold Host.loopStep at stepped
      split at stepped
      · obtain ⟨_, -, same⟩ := Option.map_eq_some_iff.mp stepped
        cases same
      · unfold Host.handleEvent at stepped
        split at stepped
        · cases stepped
          exact .inr (.inr rfl)
        · split at stepped
          · exact .inl (handled stepped)
          · split at stepped
            · exact .inr (.inl (handled stepped))
            · cases stepped
      · cases stepped
        exact .inr (.inr rfl)
      · cases stepped
      · obtain ⟨_, -, same⟩ := Option.map_eq_some_iff.mp stepped
        cases same

theorem follow_told {turns : List HostTurn} {after : Host pq} {notes : List HostNote}
    (followed : System.follow (next order server) host turns = some (after, notes))
    {event : LinkEvent} {sent : Bytes} (member : .told fd event sent ∈ notes) :
    ∃ choice, .loop choice ∈ turns ∧ (event = .processIn choice.errno choice.offer ∨
      event = .processOut choice.answers ∨ event = .handleConnClose) := by
  induction turns generalizing host notes with
  | nil =>
      cases followed
      cases member
  | cons turn later ih =>
      obtain ⟨between, note, notes', stepped, further, rfl⟩ := System.follow_cons.mp followed
      rcases List.mem_cons.mp member with rfl | member
      · obtain ⟨choice, rfl, told⟩ := next_told stepped
        exact ⟨choice, List.mem_cons_self, told⟩
      · obtain ⟨choice, inside, told⟩ := ih further member
        exact ⟨choice, List.mem_cons_of_mem _ inside, told⟩

def missing : OutEvent := ⟨fun _ => .error .enoent, [1000, 1000], fun _ _ => 0⟩

/-- A step of the loop when no file is there. -/
def missingTurn (events : List ReadyEvent) (offer : Bytes) : HostTurn :=
  .loop ⟨events, 2, 0, 0, .clear, offer, missing.answers⟩

/-- The socket 7 asks twice and is answered twice, while 9 asks something malformed. -/
def twoAskers : List HostTurn :=
  let idle (steps : Nat) : List (List ReadyEvent × Bytes) := List.replicate steps ([], [])
  let reads (fd : Int) : ReadyEvent := .sock fd ⟨false, true, false⟩
  let writes (fd : Int) : ReadyEvent := .sock fd ⟨false, false, true⟩
  [.addClisockToQueue 7, .cmdSendAddFd, .addClisockToQueue 9, .cmdSendAddFd] ++
    (([.cmd], []) :: idle 11 ++
      [([reads 7, reads 9], []), ([], UserConn.plainPage.serialise), ([], bytes "GET\r\n")] ++
      idle 2 ++ ([writes 9, writes 7], []) :: idle 5 ++
      [([reads 7], []), ([], lastPage.serialise)] ++
      idle 2 ++ ([writes 7], []) :: idle 2).map fun step => missingTurn step.1 step.2

def twoAsks : List Talk :=
  [⟨UserConn.plainPage.toRequestText, [(.clear, UserConn.plainPage.serialise)], .error .enoent,
      [missing]⟩,
    ⟨lastPage, [(.clear, lastPage.serialise)], .error .enoent, [missing]⟩]

/-- An event apart from the answers of system calls. -/
inductive Kind where
  | processIn (errno : Errno) (offer : Bytes)
  | processOut
  | handleConnClose
deriving DecidableEq

def kind : LinkEvent → Kind
  | .processIn errno offer => .processIn errno offer
  | .processOut _ => .processOut
  | .handleConnClose => .handleConnClose

theorem twoAskers_answers {choice : HostChoice} (member : .loop choice ∈ twoAskers) :
    choice.answers = missing.answers := by
  rcases List.mem_append.mp member with caller | step
  · simp at caller
  · obtain ⟨_, -, same⟩ := List.mem_map.mp step
    cases same
    rfl

/-- Events of the same kinds are the same when no file is there. -/
theorem kind_injective {told asked : List LinkEvent} (same : told.map kind = asked.map kind)
    (toldMissing : ∀ answers, .processOut answers ∈ told → answers = missing.answers)
    (askedMissing : ∀ answers, .processOut answers ∈ asked → answers = missing.answers) :
    told = asked := by
  induction told generalizing asked with
  | nil => exact (List.map_eq_nil_iff.mp same.symm).symm
  | cons event told ih =>
      cases asked with
      | nil => cases same
      | cons event' asked =>
          obtain ⟨here, later⟩ := List.cons.inj same
          have rest := ih later (fun answers member => toldMissing answers (List.mem_cons_of_mem _ member))
            fun answers member => askedMissing answers (List.mem_cons_of_mem _ member)
          have head : event = event' := by
            cases event with
            | processIn errno offer => cases event' <;> cases here; rfl
            | processOut answers =>
                cases event' with
                | processOut answers' =>
                    rw [toldMissing _ List.mem_cons_self, askedMissing _ List.mem_cons_self]
                | processIn | handleConnClose => cases here
            | handleConnClose => cases event' <;> cases here; rfl
          rw [head, rest]

theorem twoAsks_told {events : List LinkEvent}
    (kinds : events.map kind = (twoAsks.flatMap Talk.events).map kind)
    (missed : ∀ answers, .processOut answers ∈ events → answers = missing.answers) :
    events = twoAsks.flatMap Talk.events := by
  refine kind_injective kinds missed fun answers member => ?_
  simp only [twoAsks, List.flatMap_cons, List.flatMap_nil, Talk.events, List.map_cons,
    List.map_nil, List.mem_append, List.mem_singleton, List.not_mem_nil] at member
  rcases member with (member | member) | (member | member) | member
  all_goals cases member
  all_goals rfl

theorem twoAsks_regular :
    ∀ talk ∈ twoAsks, talk.Regular (.front Bytes Bytes) askServer := by
  intro talk member
  rcases List.mem_cons.mp member with rfl | member
  · refine ⟨by decide +kernel, by decide +kernel, fun event inside => ?_, by decide +kernel,
      fun isFile => absurd isFile (by decide +kernel), fun isFile => absurd isFile (by decide +kernel)⟩
    rw [List.mem_singleton.mp inside]
    rfl
  · rw [List.mem_singleton.mp member]
    refine ⟨by decide +kernel, by decide +kernel, fun event inside => ?_, by decide +kernel,
      fun isFile => absurd isFile (by decide +kernel), fun isFile => absurd isFile (by decide +kernel)⟩
    rw [List.mem_singleton.mp inside]
    rfl

theorem client_answered_twice :
    ∃ notes host trace finished, System.follow (next (.front Bytes Bytes) askServer)
        (fresh (.sorted TimerNode.expire)) twoAskers = some (host, notes) ∧
      session (HostNote.mark 7) notes = some trace ∧ trace.length = 4 ∧ finished = true ∧
      Answered (twoAsks.map (Talk.answer (.front Bytes Bytes) askServer))
        ⟨(trace.map Prod.snd).flatten, finished⟩ := by
  have outcome : (System.follow (next (.front Bytes Bytes) askServer)
      (fresh (.sorted TimerNode.expire)) twoAskers).map (fun reached =>
        (reached.1.loop.epoll, (session (HostNote.mark 7) reached.2).map
          (List.map fun entry => kind entry.1))) =
      some ([], some ((twoAsks.flatMap Talk.events).map kind)) := by decide +kernel
  obtain ⟨⟨host, notes⟩, followed, read⟩ := Option.map_eq_some_iff.mp outcome
  obtain ⟨closed, kinds⟩ := Prod.mk.inj read
  obtain ⟨trace, told, kinds⟩ := Option.map_eq_some_iff.mp kinds
  have begun : (system (.front Bytes Bytes) askServer (.sorted TimerNode.expire)).Runs []
      (fresh (.sorted TimerNode.expire)) := .start rfl
  have asked : trace.map Prod.fst = twoAsks.flatMap Talk.events := by
    refine twoAsks_told (by rw [List.map_map]; exact kinds) fun answers member => ?_
    obtain ⟨⟨event, sent⟩, inside, same⟩ := List.mem_map.mp member
    obtain ⟨note, noted, mark⟩ := mem_of_session told _ inside
    obtain rfl : event = .processOut answers := same
    cases note with
    | told other event sent' =>
        rw [HostNote.mark] at mark
        split at mark
        · cases mark
          obtain ⟨choice, chosen, shape⟩ := follow_told followed noted
          rcases shape with shape | shape | shape
          · cases shape
          · cases shape
            exact twoAskers_answers chosen
          · cases shape
        · cases mark
    | quiet => cases mark
    | registered other =>
        rw [HostNote.mark] at mark
        split at mark <;> cases mark
  obtain ⟨finished, answered, ends⟩ := client_answered askServer_plain (begun.follow followed) told asked
    twoAsks_regular (by decide +kernel)
  refine ⟨notes, host, trace, finished, followed, told, ?_, ends ?_, answered⟩
  · have count := congrArg List.length asked
    rw [List.length_map] at count
    exact count
  · intro member
    rw [closed] at member
    cases member

end Host

end LiteWebServer
