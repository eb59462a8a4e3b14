import LiteWebServer.Data.Transition
import LiteWebServer.Http.Grammar
import LiteWebServer.Http.Steps
import LiteWebServer.UserConn.Answers
import LiteWebServer.UserConn.Input

namespace LiteWebServer

open Data

/-! The phases of a connection: each call of a handler ends with one call to the loop, and
the one-shot socket is armed for what the request needs next. -/

namespace HttpRequest

/-! ## The path of a request that is taken -/

variable {req next : HttpRequest}

theorem takeUri_path_ne_nil {uri : Bytes} (taken : (req.takeUri uri).2 = true) :
    (req.takeUri uri).1.path ≠ [] := by
  unfold takeUri at taken ⊢
  split
  · rename_i plain
    simp only [plain] at taken
    split at taken
    · cases taken
    · rename_i some
      rwa [if_neg some]
  · rename_i k query
    simp only [query] at taken ⊢
    split at taken
    · cases taken
    · rename_i some
      rw [if_neg some]
      split <;> exact some

/-- Behind its request line a request is bad or has a path. -/
def Routable (req : HttpRequest) : Prop :=
  req.state = .parseReqLine ∨ req.isBadReq = true ∨ req.path ≠ []

theorem Routable.step (routable : req.Routable) (step : ParseStep req next) : next.Routable := by
  cases step with
  | @reqLine line here free =>
      right
      by_cases accepted : ∃ method uri version, Accepts line method uri version
      · obtain ⟨method, uri, version, accepts⟩ := accepted
        right
        rw [req.takeReqLine_accepted accepts]
        exact takeUri_path_ne_nil (takeUri_same fresh _ uri ▸ accepts.target)
      · refine .inl (req.takeReqLine_rejected fun method uri version accepts => ?_).2.1
        exact accepted ⟨method, uri, version, accepts⟩
  | header here free =>
      have behind := routable.resolve_left (by rw [here]; exact fun same => by cases same)
      unfold takeHeader
      split
      · exact .inr behind
      · split
        · exact .inr (.inl rfl)
        · exact .inr behind
  | body here body either =>
      exact .inr (routable.resolve_left (by rw [here]; exact fun same => by cases same))
  | reject here => exact .inr (.inl rfl)

theorem Parsed.routable (parsed : Parsed req) : req.Routable :=
  parsed.invariant Routable (.inl rfl) (.inl rfl) Routable.step

end HttpRequest

/-! ## The socket of a connection -/

/-- What a one-shot socket waits for besides a hangup.  A reported event leaves it
`fired` until it is armed again. -/
inductive Arming where
  | read | write | fired | closed
deriving DecidableEq, Repr

def LoopCall.arming : LoopCall → Arming
  | .modConnEventRead => .read
  | .modConnEventWrite => .write
  | .connClose => .closed

/-- A connection with its socket and the calls that the running handler has made. -/
structure Link where
  conn : UserConn
  arming : Arming
  calls : List LoopCall

inductive LinkEvent where
  | processIn (errno : Errno) (offer : Bytes)
  | processOut (answers : OutAnswers)
  | handleConnClose

/-- The calls that a handler made, with the request that `route_path` was for. -/
inductive LinkNote where
  | processIn (calls : List LoopCall)
  | processOut (req : HttpRequest) (calls : List LoopCall)
  | handleConnClose

def LinkNote.calls? : LinkNote → Option (List LoopCall)
  | .processIn calls | .processOut _ calls => some calls
  | .handleConnClose => none

namespace Link

variable (order : HashOrder Bytes Bytes) (server : Server)

def fresh : Link where
  conn := .fresh order
  arming := .read
  calls := []

/-- A call to the loop.  `EPOLL_CTL_MOD` fails for a closed socket. -/
def call (link : Link) (loopCall : LoopCall) : Link where
  conn := link.conn
  arming := if link.arming = .closed then .closed else loopCall.arming
  calls := link.calls ++ [loopCall]

def processIn (errno : Errno) (link : Link) (offer : Bytes) : Except Fault Link := do
  let (conn, ret) := link.conn.recvFromCli offer
  let link := { link with conn }
  if !ret then return link.call .modConnEventRead
  else
    let (req, more, _) ← conn.req.parse errno conn.bufferR conn.reqParsedBytes
    let link := { link with conn := { conn with req, reqParsedBytes := u32 (conn.reqParsedBytes + more) } }
    if !req.parseComplete then return link.call .modConnEventRead
    else return link.call .modConnEventWrite

/-- `process_out` of the connection and the call that it makes. -/
def processOut (link : Link) (answers : OutAnswers) : Link :=
  let result := link.conn.processOutAny order server answers
  { link with conn := result.conn }.call result.call

/-- The socket as a handler finds it. -/
def fire (link : Link) : Link := { link with arming := .fired, calls := [] }

/-- `epoll` reports what the socket waits for, and `loop` calls the handler of it.  At a
hangup, or when the connection was idle, `loop` closes the socket. -/
def next (link : Link) : LinkEvent → Option (Link × LinkNote)
  | .processIn errno offer =>
      if link.arming = .read then
        match link.fire.processIn errno offer with
        | .ok after => some (after, .processIn after.calls)
        | .error _ => none
      else none
  | .processOut answers =>
      if link.arming = .write then
        let after := link.fire.processOut order server answers
        some (after, .processOut link.conn.req after.calls)
      else none
  | .handleConnClose =>
      if link.arming = .closed then none
      else some ({ link with arming := .closed, calls := [] }, .handleConnClose)

/-- A connection under any results of `recv`, `send`, `sendfile`, `open` and `fstat`. -/
def system : System Link LinkNote := .ofNext (fun link => link = fresh order) (next order server)

variable {order server} {link after : Link} {errno : Errno} {offer : Bytes}

/-- The handler is `process_in` of the connection followed by the call it asks for. -/
theorem processIn_eq :
    link.processIn errno offer = (link.conn.processIn errno offer).map fun ran =>
      { link with conn := ran.1 }.call ran.2.1 := by
  unfold Link.processIn UserConn.processIn
  cases link.conn.recvFromCli offer with
  | mk conn ret =>
      cases ret with
      | false => rfl
      | true =>
          dsimp only [Bool.not_true, Bool.false_eq_true, if_false]
          cases parsed : conn.req.parse errno conn.bufferR conn.reqParsedBytes with
          | error fault => rfl
          | ok result =>
              obtain ⟨req, more, after⟩ := result
              cases complete : req.parseComplete <;>
                simp [complete, bind, Except.bind, pure, Except.pure, Except.map]

/-- The call of a handler arms the socket that it was run for, or closes it. -/
theorem fire_call_arming (conn : UserConn) (loopCall : LoopCall) :
    ({ link.fire with conn }.call loopCall).arming = loopCall.arming := rfl

/-! ## Runs -/

/-- What holds between the calls of handlers. -/
structure InPhase (link : Link) : Prop where
  parsed : link.conn.req.Parsed
  size : link.conn.bufferR.length = bufferMinSizeR
  fill : link.conn.bufferRBytes ≤ bufferMinSizeR
  armed : link.arming = .closed ∨
    link.arming = if link.conn.req.parseComplete then .write else .read

theorem fresh_inPhase : (fresh order).InPhase where
  parsed := .fresh
  size := List.length_replicate
  fill := Nat.zero_le _
  armed := .inr rfl

theorem InPhase.armed_iff (phase : link.InPhase) (open_ : link.arming ≠ .closed) :
    (link.arming = .write ↔ link.conn.req.parseComplete = true) ∧
      (link.arming = .read ↔ link.conn.req.parseComplete = false) := by
  rw [phase.armed.resolve_left open_]
  cases link.conn.req.parseComplete <;> simp

theorem recvFromCli_fits {conn : UserConn} (size : conn.bufferR.length = bufferMinSizeR)
    (fill : conn.bufferRBytes ≤ bufferMinSizeR) :
    (conn.recvFromCli offer).1.bufferR.length = bufferMinSizeR ∧
      (conn.recvFromCli offer).1.bufferRBytes ≤ bufferMinSizeR ∧
      (conn.recvFromCli offer).1.req = conn.req := by
  have room : sizeSub conn.bufferR.length conn.bufferRBytes = bufferMinSizeR - conn.bufferRBytes := by
    rw [size, sizeSub_of_le fill]
  have bound : (offer.take (bufferMinSizeR - conn.bufferRBytes)).length ≤
      bufferMinSizeR - conn.bufferRBytes := List.length_take_le _ _
  unfold UserConn.recvFromCli
  dsimp only
  rw [room]
  split
  · exact ⟨size, fill, rfl⟩
  · refine ⟨?_, ?_, rfl⟩
    · dsimp only
      rw [UserConn.writeAt, List.length_append, List.length_append, List.length_take,
        List.length_drop, size]
      omega
    · dsimp only
      omega

theorem InPhase.processIn (phase : link.InPhase) (reading : link.arming = .read) (errno : Errno)
    (offer : Bytes) :
    ∃ after loopCall, link.fire.processIn errno offer = .ok after ∧ after.InPhase ∧
      after.calls = [loopCall] := by
  have waiting := (phase.armed_iff (by simp [reading])).2.mp reading
  have shape : link.fire.processIn errno offer = (link.conn.processIn errno offer).map fun ran =>
      { link.fire with conn := ran.1 }.call ran.2.1 := processIn_eq
  by_cases nothing : offer.take (sizeSub link.conn.bufferR.length link.conn.bufferRBytes) = []
  · rw [shape, UserConn.processIn_nothing (if_pos nothing)]
    refine ⟨_, _, rfl, ⟨phase.parsed, phase.size, phase.fill, .inr ?_⟩, rfl⟩
    refine (fire_call_arming _ _).trans ?_
    change _ = if link.conn.req.parseComplete then _ else _
    rw [waiting]
    rfl
  · obtain ⟨received, recv, req, -⟩ := UserConn.recvFromCli_some nothing
    have fits := @recvFromCli_fits offer link.conn phase.size phase.fill
    rw [recv] at fits
    obtain ⟨size, fill, -⟩ := fits
    obtain ⟨next, more, errno', parsed, -⟩ := @HttpRequest.parse_total received.req errno
      received.bufferR (by rw [size]; decide) received.reqParsedBytes
    obtain ⟨loopCall, ran⟩ := UserConn.processIn_some recv parsed
    obtain ⟨next', more', -, same, armed⟩ := UserConn.processIn_parsed recv ran
    obtain rfl : next = next' := congrArg UserConn.req same
    rw [shape, ran]
    refine ⟨_, loopCall, rfl, ⟨?_, size, fill, .inr ?_⟩, rfl⟩
    · exact .parse (req ▸ phase.parsed) parsed
    · refine (fire_call_arming _ _).trans ?_
      rw [armed]
      change _ = if next.parseComplete then _ else _
      cases next.parseComplete <;> rfl

theorem InPhase.processOut (phase : link.InPhase) (writing : link.arming = .write)
    (answers : OutAnswers) :
    link.conn.req.parseComplete = true ∧ (link.fire.processOut order server answers).InPhase ∧
      ∃ loopCall, (link.fire.processOut order server answers).calls = [loopCall] := by
  have complete := (phase.armed_iff (by simp [writing])).1.mp writing
  obtain ⟨conn, -, input, did⟩ := UserConn.processOutAny_did answers
    (rfl : link.fire.conn.processOutAny order server answers = _)
  unfold Link.processOut
  dsimp only
  generalize link.fire.conn.processOutAny order server answers = result at did ⊢
  have req : conn.req = link.conn.req := input.req
  have size : conn.bufferR.length = bufferMinSizeR := (congrArg List.length input.bufferR).trans phase.size
  have fill : conn.bufferRBytes ≤ bufferMinSizeR := input.bufferRBytes.trans_le phase.fill
  refine ⟨complete, ?_⟩
  rcases did with ⟨-, left, call⟩ | ⟨-, -, left, call⟩ | ⟨-, -, left, call⟩
  · rw [left, call]
    refine ⟨⟨req ▸ phase.parsed, size, fill, .inr ((fire_call_arming _ _).trans ?_)⟩, _, rfl⟩
    change _ = if conn.req.parseComplete then _ else _
    rw [req, complete]
    rfl
  · rw [left, call]
    obtain ⟨buffer, filled, reset, -⟩ := conn.connStateReset_receiving order
    refine ⟨⟨?_, (congrArg List.length buffer).trans size, ?_,
      .inr ((fire_call_arming _ _).trans ?_)⟩, _, rfl⟩
    · change HttpRequest.Parsed (conn.connStateReset order).req
      rw [reset]
      exact .reset (req ▸ phase.parsed)
    · exact filled.trans_le (Nat.zero_le _)
    · change _ = if (conn.connStateReset order).req.parseComplete then _ else _
      rw [reset]
      rfl
  · rw [left, call]
    exact ⟨⟨req ▸ phase.parsed, size, fill, .inl (fire_call_arming _ _)⟩, _, rfl⟩

/-- `route_path` comes to `get_path().back()`. -/
def EvaluatesBack (server : Server) (req : HttpRequest) : Prop :=
  req.isBadReq = false ∧ server.router req.path = none

/-- What holds after any run whose notes are `notes`. -/
structure Phased (server : Server) (notes : List LinkNote) (link : Link) : Prop where
  /-- Every call of a handler made one call to the loop. -/
  once : ∀ note ∈ notes, ∀ calls, note.calls? = some calls → ∃ loopCall, calls = [loopCall]
  /-- No handler leaves the socket open and not armed. -/
  armed : link.arming ≠ .fired
  write : link.arming ≠ .closed → (link.arming = .write ↔ link.conn.req.parseComplete = true)
  read : link.arming ≠ .closed → (link.arming = .read ↔ link.conn.req.parseComplete = false)
  routed : ∀ req calls, .processOut req calls ∈ notes →
    req.parseComplete = true ∧ (EvaluatesBack server req → req.path ≠ [])
  /-- `process_in` never faults. -/
  returns : link.arming = .read → ∀ errno offer, ∃ after, link.fire.processIn errno offer = .ok after

theorem InPhase.not_fired (phase : link.InPhase) : link.arming ≠ .fired := by
  intro fired
  have armed := phase.armed
  rw [fired] at armed
  cases complete : link.conn.req.parseComplete <;> simp [complete] at armed

/-- A complete request has a path where `route_path` looks at the end of it. -/
theorem InPhase.path_ne_nil (phase : link.InPhase) (complete : link.conn.req.parseComplete = true)
    (evaluates : EvaluatesBack server link.conn.req) : link.conn.req.path ≠ [] := by
  rcases phase.parsed.routable with line | bad | path
  · rw [HttpRequest.parseComplete, line] at complete
    cases complete
  · rw [evaluates.1] at bad
    cases bad
  · exact path

/-- What a note says: one call to the loop, and a request that may be routed. -/
structure Shows (server : Server) (note : LinkNote) : Prop where
  once : ∀ calls, note.calls? = some calls → ∃ loopCall, calls = [loopCall]
  routed : ∀ req calls, note = .processOut req calls →
    req.parseComplete = true ∧ (EvaluatesBack server req → req.path ≠ [])

theorem InPhase.next (phase : link.InPhase) {event : LinkEvent} {note : LinkNote}
    (stepped : next order server link event = some (after, note)) :
    after.InPhase ∧ Shows server note := by
  cases event with
  | processIn errno offer =>
      rw [Link.next] at stepped
      split at stepped
      · rename_i reading
        obtain ⟨last, loopCall, ran, held, called⟩ := phase.processIn reading errno offer
        rw [ran] at stepped
        cases stepped
        refine ⟨held, fun calls same => ?_, fun req calls same => by cases same⟩
        cases same
        exact ⟨loopCall, called⟩
      · cases stepped
  | processOut answers =>
      rw [Link.next] at stepped
      split at stepped
      · rename_i writing
        obtain ⟨complete, held, loopCall, called⟩ :=
          @InPhase.processOut order server _ phase writing answers
        cases stepped
        refine ⟨held, fun calls same => ?_, fun req calls same => ?_⟩
        · cases same
          exact ⟨loopCall, called⟩
        · cases same
          exact ⟨complete, phase.path_ne_nil complete⟩
      · cases stepped
  | handleConnClose =>
      rw [Link.next] at stepped
      split at stepped
      · cases stepped
      · cases stepped
        exact ⟨⟨phase.parsed, phase.size, phase.fill, .inl rfl⟩, fun calls same => (by cases same),
          fun req calls same => by cases same⟩

/-- Every run of a connection, under any results of its system calls. -/
theorem phased {notes : List LinkNote} (run : (system order server).Runs notes link) :
    Phased server notes link := by
  obtain ⟨phase, shown⟩ : link.InPhase ∧ ∀ note ∈ notes, Shows server note := by
    refine @System.Runs.invariant _ _ _
      (fun notes link => link.InPhase ∧ ∀ note ∈ notes, Shows server note) ?_ ?_ _ _ run
    · intro link same
      subst same
      exact ⟨fresh_inPhase, fun note member => by cases member⟩
    · intro notes before note after held step
      obtain ⟨phase, shown⟩ := held
      obtain ⟨event, stepped⟩ := step
      obtain ⟨phase', shows'⟩ := phase.next stepped
      refine ⟨phase', fun other member => ?_⟩
      rcases List.mem_append.mp member with earlier | this
      · exact shown other earlier
      · exact List.mem_singleton.mp this ▸ shows'
  refine ⟨fun note member => (shown note member).once, phase.not_fired, fun open_ =>
    (phase.armed_iff open_).1, fun open_ => (phase.armed_iff open_).2, fun req calls member =>
    (shown _ member).routed req calls rfl, fun reading errno offer => ?_⟩
  obtain ⟨after, loopCall, ran, -⟩ := phase.processIn reading errno offer
  exact ⟨after, ran⟩

/-- A request in two pieces, answered in two on a connection that is kept, and then one
that ends it. -/
def keptThenClosed : List LinkEvent :=
  let answers (sends : List Nat) : OutAnswers := ⟨fun _ => .error .enoent, sends, fun _ _ => 0⟩
  [.processIn .clear (bytes "GET / HTTP/1.1\r\nConnec"),
    .processIn .clear (bytes "tion: keep-alive\r\n\r\n"), .processOut (answers [100]),
    .processOut (answers [1000, 1000]), .processIn .clear (bytes "GET / HTTP/1.1\r\n\r\n"),
    .processOut (answers [1000, 1000])]

theorem phased_kept_then_closed :
    ∃ notes link, System.follow
        (next (.front Bytes Bytes) (.builtin (.front Bytes Bytes) (bytes "/www") fun _ => none))
        (fresh (.front Bytes Bytes)) keptThenClosed = some (link, notes) ∧
      notes.map LinkNote.calls? = [some [.modConnEventRead], some [.modConnEventWrite],
        some [.modConnEventWrite], some [.modConnEventRead], some [.modConnEventWrite],
        some [.connClose]] ∧
      Phased (.builtin (.front Bytes Bytes) (bytes "/www") fun _ => none) notes link := by
  have outcome : (System.follow
      (next (.front Bytes Bytes) (.builtin (.front Bytes Bytes) (bytes "/www") fun _ => none))
      (fresh (.front Bytes Bytes)) keptThenClosed).map (fun reached =>
        reached.2.map LinkNote.calls?) =
      some [some [.modConnEventRead], some [.modConnEventWrite], some [.modConnEventWrite],
        some [.modConnEventRead], some [.modConnEventWrite], some [.connClose]] := by decide +kernel
  obtain ⟨⟨link, notes⟩, followed, read⟩ := Option.map_eq_some_iff.mp outcome
  have begun : (system (.front Bytes Bytes)
      (.builtin (.front Bytes Bytes) (bytes "/www") fun _ => none)).Runs [] (fresh _) := .start rfl
  exact ⟨notes, link, followed, read, phased (begun.follow followed)⟩

end Link

end LiteWebServer
