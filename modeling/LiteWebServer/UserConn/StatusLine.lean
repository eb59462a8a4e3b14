import LiteWebServer.Http.Grammar
import LiteWebServer.Http.Steps
import LiteWebServer.UserConn.Handlers
import LiteWebServer.UserConn.Input

namespace LiteWebServer

open Data

/-! The status line of a response, whose version text comes from the constructor, from a
reset, or from the request line. -/

namespace HttpResponse

/-- The text that `get_base_rsp` gives begins with a status line. -/
def HasStatusLine (rsp : HttpResponse) : Prop :=
  ∃ version ∈ versionNames,
    version ++ (bytes " " ++ decimal rsp.code.number ++ bytes " " ++ httpCodeToStr rsp.code ++ crlf) <+:
      rsp.getBaseRsp.baseRsp

instance (rsp : HttpResponse) : Decidable rsp.HasStatusLine :=
  inferInstanceAs (Decidable (∃ version ∈ versionNames, _ <+: rsp.getBaseRsp.baseRsp))

variable {rsp : HttpResponse}

/-- A version text that is empty or read as one of the versions makes a status line
exactly when it is one of them. -/
theorem hasStatusLine_iff (origin : rsp.httpVer = [] ∨ cStr rsp.httpVer ∈ versionNames) :
    rsp.HasStatusLine ↔ rsp.httpVer ∈ versionNames := by
  have shape : rsp.getBaseRsp.baseRsp = rsp.httpVer ++ (bytes " " ++ decimal rsp.code.number ++
      bytes " " ++ httpCodeToStr rsp.code ++ crlf ++
      ((rsp.headers.entries.flatMap fun kv => kv.1 ++ bytes ": " ++ kv.2 ++ crlf) ++ crlf)) := by
    rw [getBaseRsp_baseRsp, head, baseText]
    simp only [List.append_assoc]
  have width : ∀ version ∈ versionNames, version.length = 8 ∧ version.head? = some 72 := by decide
  unfold HasStatusLine
  rw [shape]
  constructor
  · intro begins
    obtain ⟨version, member, rest, same⟩ := begins
    obtain ⟨eight, first⟩ := width version member
    rcases origin with empty | named
    · rw [empty] at same
      have start := congrArg List.head? same
      simp [List.head?_append, first, bytes] at start
    · rcases cStr_split rsp.httpVer with whole | ⟨more, split⟩
      · rwa [← whole]
      · generalize rsp.httpVer = text at same split named
        rw [split] at same
        simp only [List.append_assoc] at same
        obtain ⟨-, behind⟩ := List.append_inj same (eight.trans (width _ named).1.symm)
        simp [bytes] at behind
  · intro member
    refine ⟨rsp.httpVer, member, (List.prefix_append_right_inj _).mpr (List.prefix_append _ _)⟩

end HttpResponse

/-- A session with what its version text depends on: whether the connection was reset,
and the request line it has read since. -/
structure Lined where
  session : Session
  wasReset : Bool
  reqLine : Option Bytes

namespace Lined

variable (order : HashOrder Bytes Bytes)

def start : Lined := ⟨.start order, false, none⟩

def step (lined : Lined) : SessionEvent → Except Fault Lined
  | .processIn errno offer => do
      let session ← lined.session.step order (.processIn errno offer)
      let buffer := (lined.session.conn.recvFromCli offer).1.bufferR
      let reqLine :=
        if lined.reqLine = none ∧ lined.session.delivered offer ≠ [] then
          (find? crlf buffer).map fun lineEnd => buffer.take lineEnd
        else lined.reqLine
      return { lined with session, reqLine }
  | .connStateReset => do
      let session ← lined.session.step order .connStateReset
      return ⟨session, true, none⟩

def run (lined : Lined) : List SessionEvent → Except Fault Lined
  | [] => .ok lined
  | event :: later => do
      let next ← lined.step order event
      next.run later

/-- The version a request has before its line is read. -/
def initialVer (wasReset : Bool) : Bytes := if wasReset then [] else bytes "HTTP/1.1"

/-- The line is accepted and its version has nothing behind a `NUL`, or it is not, on a
connection that was never reset. -/
def Plain (lined : Lined) : Prop :=
  ∃ line, lined.reqLine = some line ∧
    ((∃ method uri version, HttpRequest.Accepts line method uri version ∧ 0 ∉ version) ∨
      (∀ method uri version, ¬ HttpRequest.Accepts line method uri version) ∧
        lined.wasReset = false)

/-- The version text is the one of the line, if it was accepted, and else the initial one. -/
structure Traced (lined : Lined) : Prop where
  waiting : lined.reqLine = none → lined.session.conn.req.state = .parseReqLine ∧
    lined.session.conn.reqParsedBytes = 0 ∧
    lined.session.conn.req.httpVer = initialVer lined.wasReset
  past : ∀ line, lined.reqLine = some line → lined.session.conn.req.state ≠ .parseReqLine ∧
    ((∃ method uri version, HttpRequest.Accepts line method uri version ∧
        lined.session.conn.req.httpVer = version) ∨
      (∀ method uri version, ¬ HttpRequest.Accepts line method uri version) ∧
        lined.session.conn.req.httpVer = initialVer lined.wasReset)

variable {order} {lined next : Lined}

theorem start_traced : (start order).Traced where
  waiting _ := ⟨rfl, rfl, rfl⟩
  past _ read := by cases read

theorem Traced.connStateReset (ran : lined.step order .connStateReset = .ok next) : next.Traced := by
  obtain ⟨session, reset, same⟩ := bind_eq_ok.mp ran
  cases reset
  cases same
  constructor
  · intro _
    dsimp only
    unfold UserConn.connStateReset UserConn.closeFileFd
    split <;> exact ⟨rfl, rfl, rfl⟩
  · intro line read
    cases read

/-- What the line makes of a request that waited for it. -/
theorem taken_version {req after : HttpRequest} {line initial : Bytes} (initially : req.httpVer = initial)
    (steps : HttpRequest.ParseSteps (req.takeReqLine line) after) :
    after.state ≠ .parseReqLine ∧
      ((∃ method uri version, HttpRequest.Accepts line method uri version ∧ after.httpVer = version) ∨
        (∀ method uri version, ¬ HttpRequest.Accepts line method uri version) ∧
          after.httpVer = initial) := by
  have past : (req.takeReqLine line).state ≠ .parseReqLine := by
    rcases req.takeReqLine_state line with done | header
    · simp [done]
    · simp [header]
  obtain ⟨past', same⟩ := steps.sameLine past
  refine ⟨past', ?_⟩
  by_cases accepted : ∃ method uri version, HttpRequest.Accepts line method uri version
  · obtain ⟨method, uri, version, accepts⟩ := accepted
    refine .inl ⟨method, uri, version, accepts, ?_⟩
    rw [same.httpVer, HttpRequest.takeReqLine_accepted req accepts]
  · have rejected : ∀ method uri version, ¬ HttpRequest.Accepts line method uri version :=
      fun method uri version accepts => accepted ⟨method, uri, version, accepts⟩
    refine .inr ⟨rejected, ?_⟩
    rw [same.httpVer, (req.takeReqLine_rejected rejected).2.2, initially]

theorem Traced.processIn (traced : lined.Traced) {errno : Errno} {offer : Bytes}
    (ran : lined.step order (.processIn errno offer) = .ok next) : next.Traced := by
  obtain ⟨session, ran, same⟩ := bind_eq_ok.mp ran
  obtain ⟨⟨conn, call, errno'⟩, into, received⟩ := bind_eq_ok.mp ran
  cases received
  cases same
  by_cases nothing : lined.session.delivered offer = []
  · have recv : lined.session.conn.recvFromCli offer = (lined.session.conn, false) := if_pos nothing
    rw [UserConn.processIn_nothing recv] at into
    cases into
    simp only [nothing, ne_eq, not_true_eq_false, and_false, if_false]
    exact ⟨traced.waiting, traced.past⟩
  · obtain ⟨received, recv, sameReq, sameParsed⟩ := UserConn.recvFromCli_some nothing
    obtain ⟨req, more, parsed, rfl, -⟩ := UserConn.processIn_parsed recv into
    rw [sameReq, sameParsed] at parsed
    rw [recv]
    cases read : lined.reqLine with
    | none =>
        obtain ⟨here, zero, initially⟩ := traced.waiting read
        rw [zero] at parsed
        have taken := HttpRequest.parse_reqLine here parsed
        simp only [ne_eq, nothing, not_false_eq_true, and_self, if_true]
        cases found : find? crlf received.bufferR with
        | none =>
            rw [found] at taken
            obtain ⟨rfl, rfl⟩ := taken
            refine ⟨fun _ => ⟨here, ?_, initially⟩, fun line read => by cases read⟩
            dsimp only
            rw [sameParsed, zero]
            rfl
        | some lineEnd =>
            rw [found] at taken
            refine ⟨fun absent => absurd absent (by simp), fun line read => ?_⟩
            cases read
            exact taken_version initially taken
    | some line =>
        obtain ⟨past, version⟩ := traced.past line read
        obtain ⟨past', same⟩ := (HttpRequest.parse_steps parsed).sameLine past
        simp only [reduceCtorEq, false_and, if_false]
        refine ⟨fun absent => absurd absent (by simp), fun line' read' => ?_⟩
        cases read'
        dsimp only
        rw [same.httpVer]
        exact ⟨past', version⟩

theorem Traced.run (events : List SessionEvent) {lined next : Lined} (traced : lined.Traced)
    (ran : lined.run order events = .ok next) : next.Traced := by
  induction events generalizing lined with
  | nil =>
      cases ran
      exact traced
  | cons event later ih =>
      obtain ⟨middle, step, rest⟩ := bind_eq_ok.mp ran
      cases event with
      | processIn errno offer => exact ih (traced.processIn step) rest
      | connStateReset => exact ih (Traced.connStateReset step) rest

/-- On a connection with any history, the head of the response to a complete request
begins with a status line exactly when the version text is in order. -/
theorem head_has_status_line_iff {server : Server}
    (built : server.Registers (Builds order fun _ => True)) {events : List SessionEvent}
    (ran : (start order).run order events = .ok lined)
    (complete : lined.session.conn.req.parseComplete = true) (event : OutEvent) :
    (lined.session.conn.prepare order server event).1.rsp.HasStatusLine ↔ lined.Plain := by
  have traced := start_traced.run events ran
  have version : (lined.session.conn.prepare order server event).1.rsp.httpVer =
      lined.session.conn.req.httpVer := by
    obtain ⟨func, builds, shape⟩ := UserConn.prepare_registered built
      (rootHandler_builds fun _ _ _ => trivial) (staticFileHandler_builds fun _ _ _ => trivial)
      lined.session.conn event
    obtain ⟨calls, -, same⟩ := builds lined.session.conn.req
    rcases shape with shape | ⟨size, shape⟩
    · rw [shape, same, HttpResponse.build_httpVer]
    · rw [shape, HttpResponse.headerOper_httpVer, same, HttpResponse.build_httpVer]
  obtain ⟨line, read⟩ : ∃ line, lined.reqLine = some line := by
    cases read : lined.reqLine with
    | none =>
        have waits := (traced.waiting read).1
        simp [HttpRequest.parseComplete, waits] at complete
    | some line => exact ⟨line, rfl⟩
  have dated (wasReset : Bool) : initialVer wasReset ∈ versionNames ↔ wasReset = false := by
    cases wasReset <;> decide
  obtain ⟨-, origin⟩ := traced.past line read
  rcases origin with ⟨method, uri, field, accepts, same⟩ | ⟨rejected, same⟩
  · have named : cStr field ∈ versionNames := (httpStrToVersion_known_iff _).mp accepts.versioned
    have whole : field ∈ versionNames ↔ 0 ∉ field := mem_names_iff (by decide) named
    rw [HttpResponse.hasStatusLine_iff (.inr (by rwa [version, same])), version, same]
    constructor
    · intro member
      exact ⟨line, read, .inl ⟨method, uri, field, accepts, whole.mp member⟩⟩
    · intro plain
      obtain ⟨line', read', ⟨_, _, _, accepts', clean⟩ | ⟨rejected, -⟩⟩ := plain
      · cases read.symm.trans read'
        rw [← (accepts.toLineFields.unique accepts'.toLineFields).2.2] at clean
        exact whole.mpr clean
      · cases read.symm.trans read'
        exact absurd accepts (rejected _ _ _)
  · have origin : initialVer lined.wasReset = [] ∨ cStr (initialVer lined.wasReset) ∈ versionNames := by
      cases lined.wasReset <;> decide
    rw [HttpResponse.hasStatusLine_iff (by rwa [version, same]), version, same, dated]
    constructor
    · intro first
      exact ⟨line, read, .inr ⟨rejected, first⟩⟩
    · intro plain
      obtain ⟨line', read', ⟨_, _, _, accepts, -⟩ | ⟨-, first⟩⟩ := plain
      · cases read.symm.trans read'
        exact absurd accepts (rejected _ _ _)
      · exact first

/-- A connection that answers one request line after another. -/
def lineRun (events : List SessionEvent) : Except Fault Lined :=
  (start (.front Bytes Bytes)).run (.front Bytes Bytes) events

def lineServer : Server := .builtin (.front Bytes Bytes) (bytes "/www") fun _ => none

/-- The response that goes out when no file is there. -/
def lineRsp (lined : Lined) : HttpResponse :=
  (lined.session.conn.prepare (.front Bytes Bytes) lineServer ⟨fun _ => .error .enoent, [], fun _ _ => 0⟩).1.rsp

theorem first_request_has_status_line :
    ∃ lined, lineRun [.processIn .clear (bytes "GET / HTTP/1.0\r\n\r\n")] = .ok lined ∧
      (lineRsp lined).HasStatusLine := by
  have outcome : (lineRun [.processIn .clear (bytes "GET / HTTP/1.0\r\n\r\n")]).toOption.map
      (fun lined => (lined.reqLine, lined.session.conn.req.parseComplete)) =
        some (some (bytes "GET / HTTP/1.0"), true) := by
    decide +kernel
  obtain ⟨lined, ran, both⟩ := ok_of_map outcome
  obtain ⟨read, complete⟩ := Prod.mk.inj both
  have registers : lineServer.Registers (Builds (.front Bytes Bytes) fun _ => True) :=
    builtin_registers (fun _ _ => trivial) (fun _ => trivial) (fun _ _ _ _ routed => by cases routed)
  have fields : LineFields (bytes "GET / HTTP/1.0") (bytes "GET") (bytes "/") (bytes "HTTP/1.0") :=
    ⟨⟨rfl, by decide⟩, by decide⟩
  exact ⟨lined, ran, (head_has_status_line_iff registers ran complete _).mpr
    ⟨_, read, .inl ⟨_, _, _, ⟨fields, by decide, by decide, by decide⟩, by decide⟩⟩⟩

/-- After a reset, a line without its fields leaves the status line without a version. -/
theorem second_request_lacks_version :
    ∃ lined, lineRun [.processIn .clear (bytes "GET / HTTP/1.1\r\nConnection: keep-alive\r\n\r\n"),
        .connStateReset, .processIn .clear (bytes "GET\r\n")] = .ok lined ∧
      lined.session.conn.req.parseComplete = true ∧ ¬ (lineRsp lined).HasStatusLine := by
  have outcome : (lineRun [
      .processIn .clear (bytes "GET / HTTP/1.1\r\nConnection: keep-alive\r\n\r\n"),
      .connStateReset, .processIn .clear (bytes "GET\r\n")]).toOption.map
        (fun lined => (lined.session.conn.req.parseComplete, decide (lineRsp lined).HasStatusLine)) =
        some (true, false) := by
    decide +kernel
  obtain ⟨lined, ran, both⟩ := ok_of_map outcome
  obtain ⟨complete, lacks⟩ := Prod.mk.inj both
  exact ⟨lined, ran, complete, of_decide_eq_false lacks⟩

end Lined

end LiteWebServer
