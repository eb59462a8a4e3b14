import LiteWebServer.Http.Response

namespace LiteWebServer

open Data

/-- An open descriptor of a file: whether `st_mode & S_IFDIR` is set, and the bytes
it reads, as many as `st_size` says. -/
structure OpenFile where
  isDir : Bool
  content : Bytes
deriving DecidableEq, Repr

/-- What a connection asks of its loop at the end of `process_in` or `process_out`. -/
inductive LoopCall where
  | modConnEventRead | modConnEventWrite | connClose
deriving DecidableEq, Repr

def bufferMinSizeR : Nat := 2048

/-- A connection without its descriptor, loop and configuration. -/
structure UserConn where
  bufferR : Bytes
  bufferRBytes : Nat
  req : HttpRequest
  reqParsedBytes : Nat
  rsp : HttpResponse
  baseRspSnd : Bool
  bodySnd : Bool
  rspBaseSndBytes : Nat
  rspBodySndBytes : Nat
  fileFd : Option OpenFile
  fileSize : Nat

namespace UserConn

/-- The constructor. -/
def fresh (order : HashOrder Bytes Bytes) : UserConn where
  bufferR := List.replicate bufferMinSizeR 0
  bufferRBytes := 0
  req := .fresh
  reqParsedBytes := 0
  rsp := .ofRequest order .fresh
  baseRspSnd := false
  bodySnd := false
  rspBaseSndBytes := 0
  rspBodySndBytes := 0
  fileFd := none
  fileSize := 0

def closeFileFd (conn : UserConn) : UserConn :=
  if conn.fileFd ≠ none then { conn with fileFd := none, fileSize := 0 } else conn

/-- `conn_state_reset` keeps the bytes of the receive buffer. -/
def connStateReset (order : HashOrder Bytes Bytes) (conn : UserConn) : UserConn :=
  closeFileFd
    { conn with
      bufferRBytes := 0, req := conn.req.reset, reqParsedBytes := 0, rsp := conn.rsp.reset order,
      baseRspSnd := false, bodySnd := false, rspBaseSndBytes := 0, rspBodySndBytes := 0 }

/-- A reset starts the receiving side again over the old bytes of the buffer. -/
theorem connStateReset_receiving (order : HashOrder Bytes Bytes) (conn : UserConn) :
    (conn.connStateReset order).bufferR = conn.bufferR ∧
      (conn.connStateReset order).bufferRBytes = 0 ∧
      (conn.connStateReset order).req = conn.req.reset ∧
      (conn.connStateReset order).reqParsedBytes = 0 := by
  unfold connStateReset closeFileFd
  split <;> exact ⟨rfl, rfl, rfl, rfl⟩

end UserConn

end LiteWebServer
