import LiteWebServer.UserConn.State

namespace LiteWebServer

open Data

abbrev HandleFunc := HttpRequest → HttpResponse

/-- The codes `route_path` and `process_out` look up in `err_handler_`. -/
def answeredCodes : List HttpCode :=
  [.movedPermanently, .badRequest, .notFound, .notAllowed, .internalServerError]

theorem movedPermanently_answered : .movedPermanently ∈ answeredCodes := by decide

theorem notFound_answered : .notFound ∈ answeredCodes := by decide

theorem internalServerError_answered : .internalServerError ∈ answeredCodes := by decide

/-- The configuration and the two static tables.  Registration only adds or
overwrites, so the codes the server answers with keep a handler. -/
structure Server where
  docRoot : Bytes
  errHandlers : HttpCode → Option HandleFunc
  router : Bytes → Option (HttpMethod → Option HandleFunc)
  answered : ∀ code ∈ answeredCodes, (errHandlers code).isSome = true

namespace Server

def errHandler (server : Server) (code : HttpCode) (answered : code ∈ answeredCodes) : HandleFunc :=
  (server.errHandlers code).get (server.answered code answered)

/-- The initial contents of `err_handler_`. -/
def builtinErrHandlers (order : HashOrder Bytes Bytes) : HttpCode → Option HandleFunc
  | .movedPermanently => some (errHandler301 order)
  | .badRequest => some (errHandler400 order)
  | .notFound => some (errHandler404 order)
  | .notAllowed => some (errHandler405 order)
  | .internalServerError => some (errHandler500 order)
  | _ => none

def builtin (order : HashOrder Bytes Bytes) (docRoot : Bytes)
    (router : Bytes → Option (HttpMethod → Option HandleFunc)) : Server where
  docRoot := docRoot
  errHandlers := builtinErrHandlers order
  router := router
  answered := by simp [answeredCodes, builtinErrHandlers]

def registerErrHandler (server : Server) (code : HttpCode) (func : HandleFunc) : Server where
  docRoot := server.docRoot
  errHandlers other := if other = code then some func else server.errHandlers other
  router := server.router
  answered other member := by
    split
    · rfl
    · exact server.answered other member

end Server

/-- What the system does during one call of `process_out`: what `open` and `fstat`
give for a name, and how much each `send` or `sendfile` would take, in order.
Zero, as well as the end of the list, stands for a result that is not positive.
`behind` is what lies in memory behind a text, by the distance from its end. -/
structure OutEvent where
  opens : Bytes → Except Errno OpenFile
  sends : List Nat
  behind : Bytes → Nat → UInt8

namespace UserConn

variable (order : HashOrder Bytes Bytes) (server : Server)

/-- The response `route_path` assigns to `rsp_`. -/
def routePath (req : HttpRequest) : HttpResponse :=
  if req.isBadReq then server.errHandler .badRequest (by decide) req
  else
    match server.router req.path with
    | some methods =>
        match methods req.method with
        | some callFn => callFn req
        | none => server.errHandler .notAllowed (by decide) req
    | none =>
        if req.path.getLast? = some 47 then rootHandler order req else staticFileHandler order req

/-- The name `process_out` passes to `open` when the response to `req` is a file. -/
def fileName (req : HttpRequest) : Bytes :=
  cStr (combineTwoPath server.docRoot (routePath order server req).body)

/-- The part of `process_out` that opens the file of the response, with the name
passed to `open` if it is called. -/
def openBody (conn : UserConn) (event : OutEvent) : UserConn × Option Bytes :=
  if conn.rsp.bodyIsFile ∧ conn.fileFd = none then
    let filePath := cStr (combineTwoPath server.docRoot conn.rsp.body)
    match event.opens filePath with
    | .ok file =>
        let conn := { conn with fileFd := some file }
        if file.isDir then
          let conn := conn.closeFileFd
          ({ conn with rsp := server.errHandler .movedPermanently (by decide) conn.req }, some filePath)
        else
          let conn := { conn with fileSize := file.content.length }
          ({ conn with
              rsp := conn.rsp.headerOper order .modify (bytes "Content-Length")
                (decimal conn.fileSize) }, some filePath)
    | .error errno =>
        if errno = .enoent then
          ({ conn with rsp := server.errHandler .notFound (by decide) conn.req }, some filePath)
        else
          ({ conn with rsp := server.errHandler .internalServerError (by decide) conn.req },
            some filePath)
  else (conn, none)

/-- What is left of a text of `size` bytes behind `sent` of them.  With more sent than
there is, the unsigned difference wraps and `send` reads past the text. -/
def remain (size sent : Nat) : Except Fault Nat :=
  if size < sent then .error .wildRead else .ok (size - sent)

end UserConn

/-- How `send` gets at a text: what it is told to be left of `size` bytes behind `sent` of
them, and the bytes that it takes from a place on. -/
structure Reach (m : Type → Type) where
  remain : Nat → Nat → m Nat
  take : Bytes → Nat → Nat → Bytes

namespace Reach

/-- A read past the text is a fault. -/
def guarded : Reach (Except Fault) where
  remain := UserConn.remain
  take text pos count := (text.drop pos).take count

/-- A read past the text takes what lies there. -/
def wrapping (behind : Bytes → Nat → UInt8) : Reach Id where
  remain size sent := sizeSub size sent
  take text pos count :=
    (List.range count).map fun i => text.getD (pos + i) (behind text (pos + i - text.length))

@[simp] theorem guarded_remain (size sent : Nat) :
    guarded.remain size sent = UserConn.remain size sent := rfl

@[simp] theorem guarded_take (text : Bytes) (pos count : Nat) :
    guarded.take text pos count = (text.drop pos).take count := rfl

end Reach

namespace UserConn

def httpFileChunkSize : Nat := 64 * 1024

/-- What `sendfile` reads from the descriptor; without one it fails. -/
def fileChunk (conn : UserConn) (sendBytes : Nat) : Bytes :=
  match conn.fileFd with
  | some file => (file.content.drop conn.rspBodySndBytes).take sendBytes
  | none => []

/-- The loop of `send_body` for a file. -/
def sendFileBody (conn : UserConn) : List Nat → UserConn × Bytes × List Nat
  | [] =>
      if conn.fileSize ≤ conn.rspBodySndBytes then
        ({ conn with bodySnd := true }.closeFileFd, [], [])
      else (conn, [], [])
  | accepted :: sends =>
      if conn.fileSize ≤ conn.rspBodySndBytes then
        ({ conn with bodySnd := true }.closeFileFd, [], accepted :: sends)
      else
        let sendBytes := min (conn.fileSize - conn.rspBodySndBytes) httpFileChunkSize
        let chunk := conn.fileChunk (min accepted sendBytes)
        if chunk = [] then (conn, [], sends)
        else
          let (conn, sent, sends) :=
            sendFileBody { conn with rspBodySndBytes := conn.rspBodySndBytes + chunk.length } sends
          (conn, chunk ++ sent, sends)

section Sending

variable {m : Type → Type} [Monad m] (reach : Reach m)

/-- The loop of `send_base_rsp`: the connection, the bytes sent, and the results left. -/
def sendBaseRspBy (conn : UserConn) : List Nat → m (UserConn × Bytes × List Nat)
  | [] => do
      let conn := { conn with rsp := conn.rsp.getBaseRsp }
      let remainSize ← reach.remain conn.rsp.baseRsp.length conn.rspBaseSndBytes
      if remainSize = 0 then return ({ conn with baseRspSnd := true }, [], [])
      else return (conn, [], [])
  | accepted :: sends => do
      let conn := { conn with rsp := conn.rsp.getBaseRsp }
      let remainSize ← reach.remain conn.rsp.baseRsp.length conn.rspBaseSndBytes
      if remainSize = 0 then return ({ conn with baseRspSnd := true }, [], accepted :: sends)
      else
        let sendBytes := min accepted remainSize
        if sendBytes = 0 then return (conn, [], sends)
        else
          let chunk := reach.take conn.rsp.baseRsp conn.rspBaseSndBytes sendBytes
          let (conn, sent, sends) ←
            sendBaseRspBy { conn with rspBaseSndBytes := u32 (conn.rspBaseSndBytes + sendBytes) } sends
          return (conn, chunk ++ sent, sends)

/-- The loop of `send_body` for a body in memory. -/
def sendBinBodyBy (conn : UserConn) : List Nat → m (UserConn × Bytes × List Nat)
  | [] => do
      let remainSize ← reach.remain conn.rsp.body.length conn.rspBodySndBytes
      if remainSize = 0 then return ({ conn with bodySnd := true }, [], [])
      else return (conn, [], [])
  | accepted :: sends => do
      let remainSize ← reach.remain conn.rsp.body.length conn.rspBodySndBytes
      if remainSize = 0 then return ({ conn with bodySnd := true }, [], accepted :: sends)
      else
        let sendBytes := min accepted remainSize
        if sendBytes = 0 then return (conn, [], sends)
        else
          let chunk := reach.take conn.rsp.body conn.rspBodySndBytes sendBytes
          let (conn, sent, sends) ←
            sendBinBodyBy { conn with rspBodySndBytes := conn.rspBodySndBytes + sendBytes } sends
          return (conn, chunk ++ sent, sends)

def sendBodyBy (conn : UserConn) (sends : List Nat) : m (UserConn × Bytes × List Nat) :=
  if conn.rsp.bodyIsFile then pure (conn.sendFileBody sends) else conn.sendBinBodyBy reach sends

/-- The two conditional calls in `send_to_cli`. -/
def sendHeadIfDueBy (conn : UserConn) (sends : List Nat) : m (UserConn × Bytes × List Nat) :=
  if !conn.baseRspSnd then conn.sendBaseRspBy reach sends else pure (conn, [], sends)

def sendBodyIfDueBy (conn : UserConn) (sends : List Nat) : m (UserConn × Bytes × List Nat) :=
  if conn.baseRspSnd && !conn.bodySnd then conn.sendBodyBy reach sends else pure (conn, [], sends)

/-- `send_to_cli`: the bytes sent, and whether the response is out. -/
def sendToCliBy (conn : UserConn) (sends : List Nat) : m (UserConn × Bytes × Bool) := do
  let (conn, head, sends) ← conn.sendHeadIfDueBy reach sends
  let (conn, body, _) ← conn.sendBodyIfDueBy reach sends
  return (conn, head ++ body, conn.baseRspSnd && conn.bodySnd)

end Sending

/-! The same with no read past a text. -/

abbrev sendBaseRsp (conn : UserConn) (sends : List Nat) : Except Fault (UserConn × Bytes × List Nat) :=
  conn.sendBaseRspBy .guarded sends

abbrev sendBinBody (conn : UserConn) (sends : List Nat) : Except Fault (UserConn × Bytes × List Nat) :=
  conn.sendBinBodyBy .guarded sends

abbrev sendBody (conn : UserConn) (sends : List Nat) : Except Fault (UserConn × Bytes × List Nat) :=
  conn.sendBodyBy .guarded sends

abbrev sendHeadIfDue (conn : UserConn) (sends : List Nat) : Except Fault (UserConn × Bytes × List Nat) :=
  conn.sendHeadIfDueBy .guarded sends

abbrev sendBodyIfDue (conn : UserConn) (sends : List Nat) : Except Fault (UserConn × Bytes × List Nat) :=
  conn.sendBodyIfDueBy .guarded sends

abbrev sendToCli (conn : UserConn) (sends : List Nat) : Except Fault (UserConn × Bytes × Bool) :=
  conn.sendToCliBy .guarded sends

end UserConn

/-- One call of `process_out` as seen from outside: the name passed to `open`, the
response when it starts sending, the bytes sent, whether `send_to_cli` returned
true, and what it asks of the loop. -/
structure OutResult where
  conn : UserConn
  opened : Option Bytes
  rsp : HttpResponse
  sent : Bytes
  finished : Bool
  call : LoopCall

namespace UserConn

variable (order : HashOrder Bytes Bytes) (server : Server)

def keepAlive (req : HttpRequest) : Bool :=
  match req.getHeader (bytes "Connection") with
  | some connState => strToLower connState = bytes "keep-alive"
  | none => false

/-- The response as `process_out` is about to send it. -/
def prepare (conn : UserConn) (event : OutEvent) : UserConn × Option Bytes :=
  { conn with rsp := routePath order server conn.req }.openBody order server event

def processOut (conn : UserConn) (event : OutEvent) : Except Fault OutResult := do
  let (conn, opened) := conn.prepare order server event
  let rsp := conn.rsp
  let (conn, sent, finished) ← conn.sendToCli event.sends
  if !finished then return { conn, opened, rsp, sent, finished, call := .modConnEventWrite }
  else if keepAlive conn.req then
    return { conn := conn.connStateReset order, opened, rsp, sent, finished, call := .modConnEventRead }
  else return { conn, opened, rsp, sent, finished, call := .connClose }

variable {order server} {conn : UserConn} {event : OutEvent}

theorem processOut_prepared {result : OutResult}
    (ran : conn.processOut order server event = .ok result) :
    result.opened = (conn.prepare order server event).2 ∧
      result.rsp = (conn.prepare order server event).1.rsp := by
  obtain ⟨⟨after, sent, finished⟩, sends, ran⟩ := bind_eq_ok.mp ran
  dsimp only at ran
  split at ran
  · cases ran
    exact ⟨rfl, rfl⟩
  · split at ran <;> (cases ran; exact ⟨rfl, rfl⟩)

theorem prepare_opened {name : Bytes} (opened : (conn.prepare order server event).2 = some name) :
    name = fileName order server conn.req := by
  unfold prepare openBody at opened
  split at opened
  · dsimp only at opened
    split at opened
    · split at opened <;> (cases opened; rfl)
    · split at opened <;> (cases opened; rfl)
  · cases opened

end UserConn

end LiteWebServer
