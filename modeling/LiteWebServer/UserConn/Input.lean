import LiteWebServer.Http.Ambient
import LiteWebServer.UserConn.State

namespace LiteWebServer

open Data

namespace UserConn

/-- The bytes of `data` copied into a buffer of fixed size at `pos`. -/
def writeAt (buffer : Bytes) (pos : Nat) (data : Bytes) : Bytes :=
  buffer.take pos ++ data ++ buffer.drop (pos + data.length)

/-- `recv` takes from what the socket offers as much as fits.  Nothing taken stands
for every result that is not positive. -/
def recvFromCli (conn : UserConn) (offer : Bytes) : UserConn × Bool :=
  let remainSize := sizeSub conn.bufferR.length conn.bufferRBytes
  let recv := offer.take remainSize
  if recv = [] then (conn, false)
  else
    ({ conn with
        bufferR := writeAt conn.bufferR conn.bufferRBytes recv,
        bufferRBytes := conn.bufferRBytes + recv.length }, true)

def processIn (errno : Errno) (conn : UserConn) (offer : Bytes) :
    Except Fault (UserConn × LoopCall × Errno) := do
  let (conn, ret) := conn.recvFromCli offer
  if !ret then return (conn, .modConnEventRead, errno)
  else
    let (req, more, errno) ← conn.req.parse errno conn.bufferR conn.reqParsedBytes
    let conn := { conn with req, reqParsedBytes := u32 (conn.reqParsedBytes + more) }
    if !conn.req.parseComplete then return (conn, .modConnEventRead, errno)
    else return (conn, .modConnEventWrite, errno)

variable {conn after : UserConn} {errno errno' : Errno} {offer : Bytes}

theorem processIn_nothing (recv : conn.recvFromCli offer = (conn, false)) :
    conn.processIn errno offer = .ok (conn, .modConnEventRead, errno) := by
  simp [processIn, recv, pure, Except.pure]

theorem processIn_some {req : HttpRequest} {more : Nat}
    (recv : conn.recvFromCli offer = (after, true))
    (parsed : after.req.parse errno after.bufferR after.reqParsedBytes = .ok (req, more, errno')) :
    ∃ call, conn.processIn errno offer = .ok
      ({ after with req, reqParsedBytes := u32 (after.reqParsedBytes + more) }, call, errno') := by
  by_cases complete : req.parseComplete = true
  · exact ⟨.modConnEventWrite, by
      simp [processIn, recv, parsed, complete, bind, Except.bind, pure, Except.pure]⟩
  · exact ⟨.modConnEventRead, by
      simp [processIn, recv, parsed, complete, bind, Except.bind, pure, Except.pure]⟩

/-- Receiving something leaves the request and its position as they are. -/
theorem recvFromCli_some (some : offer.take (sizeSub conn.bufferR.length conn.bufferRBytes) ≠ []) :
    ∃ received, conn.recvFromCli offer = (received, true) ∧ received.req = conn.req ∧
      received.reqParsedBytes = conn.reqParsedBytes :=
  ⟨_, if_neg some, rfl, rfl⟩

/-- What a call that receives something has done: `parse` on the buffer, and the arming
that goes with its result. -/
theorem processIn_parsed {call : LoopCall} {received : UserConn}
    (recv : conn.recvFromCli offer = (received, true))
    (ran : conn.processIn errno offer = .ok (after, call, errno')) :
    ∃ req more,
      received.req.parse errno received.bufferR received.reqParsedBytes = .ok (req, more, errno') ∧
        after = { received with req, reqParsedBytes := u32 (received.reqParsedBytes + more) } ∧
        call = if req.parseComplete then .modConnEventWrite else .modConnEventRead := by
  rw [processIn, recv] at ran
  obtain ⟨⟨req, more, errno''⟩, parsed, ran⟩ := bind_eq_ok.mp ran
  refine ⟨req, more, ?_⟩
  cases complete : req.parseComplete with
  | false =>
      simp only [complete, Bool.not_false, if_true] at ran
      cases ran
      exact ⟨parsed, rfl, rfl⟩
  | true =>
      simp only [complete, Bool.not_true, Bool.false_eq_true, if_false] at ran
      cases ran
      exact ⟨parsed, rfl, rfl⟩

/-- `process_in` changes nothing on the sending side. -/
theorem processIn_frame {call : LoopCall} (ran : conn.processIn errno offer = .ok (after, call, errno')) :
    ∃ bufferR bufferRBytes req reqParsedBytes,
      after = { conn with bufferR, bufferRBytes, req, reqParsedBytes } := by
  by_cases nothing : offer.take (sizeSub conn.bufferR.length conn.bufferRBytes) = []
  · rw [processIn_nothing (if_pos nothing)] at ran
    cases ran
    exact ⟨_, _, _, _, rfl⟩
  · obtain ⟨req, more, -, rfl, -⟩ := processIn_parsed (if_neg nothing) ran
    exact ⟨_, _, _, _, rfl⟩

end UserConn

/-- A connection as its reads and resets see it, with the bytes received since it
was created or last reset. -/
structure Session where
  conn : UserConn
  received : Bytes

/-- One call of `process_in`, with `errno` before it and the bytes the socket has, or
the reset after a finished exchange. -/
inductive SessionEvent where
  | processIn (errno : Errno) (offer : Bytes)
  | connStateReset
deriving DecidableEq, Repr

namespace Session

variable (order : HashOrder Bytes Bytes)

def start : Session := ⟨.fresh order, []⟩

/-- What `recv` delivers in this state. -/
def delivered (session : Session) (offer : Bytes) : Bytes :=
  offer.take (sizeSub session.conn.bufferR.length session.conn.bufferRBytes)

def step (session : Session) : SessionEvent → Except Fault Session
  | .processIn errno offer => do
      let (conn, _, _) ← session.conn.processIn errno offer
      return ⟨conn, session.received ++ session.delivered offer⟩
  | .connStateReset => .ok ⟨session.conn.connStateReset order, []⟩

def run (session : Session) : List SessionEvent → Except Fault Session
  | [] => .ok session
  | event :: later => do
      let next ← session.step order event
      next.run later

/-- The connection has read exactly the bytes received since it was created or last
reset: what it holds, and how far it is, a fresh request reaches on them alone. -/
structure ReadsReceived (session : Session) : Prop where
  received : session.conn.bufferR.take session.conn.bufferRBytes = session.received
  alone : ∃ req n errno, HttpRequest.fresh.parse .clear session.received 0 = .ok (req, n, errno) ∧
    session.conn.req.SaysSame req ∧ session.conn.reqParsedBytes = n
  inside : session.conn.reqParsedBytes ≤ session.conn.bufferRBytes

/-- What the connection holds is what a fresh request makes of the received bytes
alone, up to the version text. -/
structure Faithful (session : Session) : Prop where
  size : session.conn.bufferR.length = bufferMinSizeR
  fill : session.conn.bufferRBytes ≤ session.conn.bufferR.length
  received : session.conn.bufferR.take session.conn.bufferRBytes = session.received
  same : ∃ version, session.conn.req = (HttpRequest.fresh.consume session.received).1.withVer version
  parsed : session.conn.reqParsedBytes = (HttpRequest.fresh.consume session.received).2

variable {order} {session : Session}

theorem start_faithful : (start order).Faithful where
  size := List.length_replicate
  fill := Nat.zero_le _
  received := rfl
  same := ⟨bytes "HTTP/1.1", by rw [start, HttpRequest.fresh_coherent.consume_nil]; rfl⟩
  parsed := by rw [start, HttpRequest.fresh_coherent.consume_nil]; rfl

theorem Faithful.connStateReset (faithful : session.Faithful) :
    Faithful ⟨session.conn.connStateReset order, []⟩ := by
  obtain ⟨kept, filled, request, parsed⟩ := session.conn.connStateReset_receiving order
  constructor
  · exact (congrArg List.length kept).trans faithful.size
  · rw [filled]
    exact Nat.zero_le _
  · rw [filled, List.take_zero]
  · exact ⟨[], by rw [request, HttpRequest.fresh_coherent.consume_nil]; rfl⟩
  · rw [parsed, HttpRequest.fresh_coherent.consume_nil]

/-- What `recv` leaves in the buffer: the received bytes and an old tail. -/
theorem Faithful.recvFromCli (faithful : session.Faithful) {offer : Bytes}
    (some : session.delivered offer ≠ []) :
    ∃ after tail, session.conn.recvFromCli offer = (after, true) ∧
      after.bufferR = session.received ++ session.delivered offer ++ tail ∧
      after.bufferRBytes = (session.received ++ session.delivered offer).length ∧
      after.bufferR.length = bufferMinSizeR ∧
      after.req = session.conn.req ∧ after.reqParsedBytes = session.conn.reqParsedBytes := by
  have room : (session.delivered offer).length ≤
      session.conn.bufferR.length - session.conn.bufferRBytes := by
    rw [delivered, sizeSub_of_le faithful.fill, List.length_take]
    exact Nat.min_le_left _ _
  have width : session.received.length = session.conn.bufferRBytes := by
    rw [← faithful.received, List.length_take, Nat.min_eq_left faithful.fill]
  have fill := faithful.fill
  refine ⟨_, session.conn.bufferR.drop (session.conn.bufferRBytes + (session.delivered offer).length),
    if_neg some, ?_, ?_, ?_, rfl, rfl⟩
  · dsimp only
    rw [UserConn.writeAt, faithful.received]
    rfl
  · rw [List.length_append, width]
    rfl
  · dsimp only
    rw [UserConn.writeAt, faithful.received, List.length_append, List.length_append,
      List.length_drop, width, ← faithful.size]
    change _ + (session.delivered offer).length +
      (_ - (_ + (session.delivered offer).length)) = _
    omega

variable (order)

/-- Whether this step is out of reach of what lies behind the received bytes and of an
old `ERANGE`.  A call that receives nothing is.  A call that receives something is
when the buffer is full, when the received bytes complete a request by themselves,
or when their head is unfinished and no line ends at or behind their last byte. -/
def Settled (session : Session) : SessionEvent → Prop
  | .connStateReset => True
  | .processIn errno offer =>
      session.delivered offer = [] ∨
        let after := (session.conn.recvFromCli offer).1
        let seen := (HttpRequest.fresh.consume (session.received ++ session.delivered offer)).1
        (errno = .erange → session.conn.req.parseComplete = true ∨ seen.Unconverted) ∧
          (after.bufferRBytes = after.bufferR.length ∨ seen.parseComplete = true ∨
            (seen.InHead ∧ ¬ crlf <:+: after.bufferR.drop (after.bufferRBytes - 1)))

instance (session : Session) : (event : SessionEvent) → Decidable (session.Settled event)
  | .connStateReset => .isTrue trivial
  | .processIn errno offer => by
      unfold Settled
      infer_instance

def SettledRun (session : Session) : List SessionEvent → Prop
  | [] => True
  | event :: later =>
      session.Settled event ∧
        match session.step order event with
        | .ok next => next.SettledRun later
        | .error _ => True

instance decidableSettledRun (events : List SessionEvent) (session : Session) :
    Decidable (session.SettledRun order events) :=
  match events with
  | [] => .isTrue trivial
  | event :: later =>
      let _ : Decidable (match session.step order event with
          | .ok next => next.SettledRun order later
          | .error _ => True) :=
        match session.step order event with
        | .ok next => decidableSettledRun later next
        | .error _ => .isTrue trivial
      inferInstanceAs (Decidable (_ ∧ _))

variable {order}

theorem Faithful.processIn (faithful : session.Faithful) {errno : Errno} {offer : Bytes}
    (settled : session.Settled (.processIn errno offer)) :
    ∃ next, session.step order (.processIn errno offer) = .ok next ∧ next.Faithful := by
  by_cases some : session.delivered offer = []
  · have recv : session.conn.recvFromCli offer = (session.conn, false) := if_pos some
    refine ⟨session, ?_, faithful⟩
    simp [step, UserConn.processIn_nothing recv, some, bind, Except.bind, pure, Except.pure]
  · obtain ⟨after, tail, recv, buffer, filled, size, req, parsed⟩ := faithful.recvFromCli some
    obtain ⟨version, same⟩ := faithful.same
    obtain ⟨noRange, quiet⟩ := settled.resolve_left some
    rw [recv] at quiet
    generalize whole : session.received ++ session.delivered offer = received' at *
    have grows : session.received <+: received' := ⟨session.delivered offer, whole⟩
    have within : received' <+: after.bufferR := buffer ▸ List.prefix_append received' tail
    have tailQuiet : tail = [] ∨ (HttpRequest.fresh.consume received').1.parseComplete = true ∨
        ((HttpRequest.fresh.consume received').1.InHead ∧
          ¬ crlf <:+: (received' ++ tail).drop (received'.length - 1)) := by
      refine quiet.imp (fun full => ?_) (Or.imp id fun head => ?_)
      · rw [buffer, filled, List.length_append] at full
        exact List.length_eq_zero_iff.mp (by omega)
      · rwa [buffer, filled] at head
    have short : after.bufferR.length < 2 ^ 32 := by
      rw [size]
      decide
    -- one call on the whole buffer, from where the last one stopped, reads what a fresh
    -- request reads of the whole buffer, and that is what it reads of the received bytes
    have next := HttpRequest.consume_resumable.step HttpRequest.fresh_coherent (grows.trans within)
    have alone := HttpRequest.consume_tail received' tail tailQuiet
    rw [← buffer] at alone
    rw [alone, ← faithful.parsed, Prod.ext_iff] at next
    obtain ⟨state, count⟩ := next
    dsimp only at state count
    have coherent := HttpRequest.consume_coherent HttpRequest.fresh session.received
      HttpRequest.fresh_coherent.toFits
    obtain ⟨version', errno', call⟩ := coherent.parse_ambient errno version short
      session.conn.reqParsedBytes (by
        rw [state]
        rwa [same] at noRange)
    rw [← same, ← req, ← parsed] at call
    obtain ⟨loopCall, processed⟩ := UserConn.processIn_some recv call
    rw [parsed] at processed
    have bound := HttpRequest.consume_bound HttpRequest.fresh received'
    have total := within.length_le
    rw [state, count, u32_of_lt (by omega)] at processed
    refine ⟨_, by rw [step, processed]; rfl, ?_⟩
    rw [whole]
    constructor
    · exact size
    · exact filled ▸ total
    · dsimp only
      rw [filled, buffer, List.take_left]
    · exact ⟨version', rfl⟩
    · rfl

theorem Faithful.step (faithful : session.Faithful) {event : SessionEvent}
    (settled : session.Settled event) :
    ∃ next, session.step order event = .ok next ∧ next.Faithful := by
  cases event with
  | processIn errno offer => exact faithful.processIn settled
  | connStateReset => exact ⟨_, rfl, faithful.connStateReset⟩

theorem Faithful.run (events : List SessionEvent) {session : Session} (faithful : session.Faithful)
    (settled : session.SettledRun order events) :
    ∃ last, session.run order events = .ok last ∧ last.Faithful := by
  induction events generalizing session with
  | nil => exact ⟨session, rfl, faithful⟩
  | cons event later ih =>
      obtain ⟨here, rest⟩ := settled
      obtain ⟨next, step, faithfulNext⟩ := faithful.step here
      rw [step] at rest
      obtain ⟨last, run, faithfulLast⟩ := ih faithfulNext rest
      exact ⟨last, by rw [Session.run, step]; exact run, faithfulLast⟩

theorem Faithful.readsReceived (faithful : session.Faithful) : session.ReadsReceived := by
  obtain ⟨version, same⟩ := faithful.same
  have width := congrArg List.length faithful.received
  rw [List.length_take, Nat.min_eq_left faithful.fill] at width
  have bound := HttpRequest.consume_bound HttpRequest.fresh session.received
  have small : bufferMinSizeR = 2048 := rfl
  have fill := faithful.fill
  have size := faithful.size
  obtain ⟨after, parsed⟩ := HttpRequest.fresh_coherent.parse_eq_consume
    (by decide : Errno.clear ≠ .erange) (by omega : session.received.length < 2 ^ 32) 0
  constructor
  · exact faithful.received
  · rw [List.drop_zero] at parsed
    exact ⟨_, _, after, parsed, same ▸ HttpRequest.withVer_saysSame, faithful.parsed⟩
  · rw [faithful.parsed, width]
    exact bound

/-- In a run of settled steps the connection reads what it received and nothing else;
so two connections that received the same bytes hold the same request. -/
theorem processIn_reads_received {events : List SessionEvent}
    (settled : (start order).SettledRun order events) :
    ∃ last, (start order).run order events = .ok last ∧ last.ReadsReceived ∧
      ∀ events' last', (start order).SettledRun order events' →
        (start order).run order events' = .ok last' → last'.received = last.received →
          last'.conn.req.SaysSame last.conn.req ∧
            last'.conn.reqParsedBytes = last.conn.reqParsedBytes := by
  obtain ⟨last, run, faithful⟩ := start_faithful.run events settled
  refine ⟨last, run, faithful.readsReceived, fun events' last' settled' run' same => ?_⟩
  obtain ⟨reached, runReached, faithful'⟩ := start_faithful.run events' settled'
  rw [runReached, Except.ok.injEq] at run'
  subst reached
  obtain ⟨version, req⟩ := faithful.same
  obtain ⟨version', req'⟩ := faithful'.same
  rw [req, req', same, faithful.parsed, faithful'.parsed, same]
  exact ⟨HttpRequest.withVer_saysSame.trans HttpRequest.withVer_saysSame.symm, rfl⟩

/-- The head of a `POST` whose body of five bytes is still on its way. -/
def bodyPending : Bytes := bytes "POST / HTTP/1.1\r\nContent-Length: 5\r\n\r\n"

theorem bodyPending_read :
    ((start (.front Bytes Bytes)).run (.front Bytes Bytes) [.processIn .clear bodyPending]).toOption.map
      (fun last => (last.conn.req.parseComplete, last.conn.req.body, last.conn.reqParsedBytes,
        last.conn.bufferRBytes)) = some (true, [0, 0, 0, 0, 0], 43, 38) := by
  decide +kernel

/-- The padding of the buffer is taken for the body. -/
theorem padding_read_as_body :
    ∃ last, (start (.front Bytes Bytes)).run (.front Bytes Bytes) [.processIn .clear bodyPending] =
        .ok last ∧
      last.conn.req.parseComplete = true ∧ last.conn.req.body = [0, 0, 0, 0, 0] ∧
      ¬ last.ReadsReceived := by
  obtain ⟨last, ran, read⟩ := ok_of_map bodyPending_read
  simp only [Prod.mk.injEq] at read
  obtain ⟨complete, body, parsed, filled⟩ := read
  refine ⟨last, ran, complete, body, fun reads => ?_⟩
  have inside := reads.inside
  omega

theorem processIn_reads_received_get :
    ∃ last, (start (.front Bytes Bytes)).run (.front Bytes Bytes)
        [.processIn .erange (bytes "GET / HTTP/1.1\r\n\r\n"), .connStateReset] = .ok last ∧
      last.ReadsReceived := by
  obtain ⟨last, run, reads, _⟩ := @processIn_reads_received (.front Bytes Bytes)
    [.processIn .erange (bytes "GET / HTTP/1.1\r\n\r\n"), .connStateReset] (by decide +kernel)
  exact ⟨last, run, reads⟩

end Session

end LiteWebServer
