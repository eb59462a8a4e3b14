import LiteWebServer.Http.Tokens

namespace LiteWebServer

open Data

inductive ParseState where
  | parseReqLine | parseReqHeader | parseBody | parseSuccess
deriving DecidableEq, Repr

structure HttpRequest where
  state : ParseState
  isBadReq : Bool
  method : HttpMethod
  path : Bytes
  httpVer : Bytes
  headers : StringMap
  param : StringMap
  body : Bytes

namespace HttpRequest

/-- The default constructor. -/
def fresh : HttpRequest where
  state := .parseReqLine
  isBadReq := false
  method := .unknown
  path := []
  httpVer := bytes "HTTP/1.1"
  headers := ∅
  param := ∅
  body := []

/-- `reset` clears the version, which the constructor sets to `HTTP/1.1`. -/
def reset (_ : HttpRequest) : HttpRequest := { fresh with httpVer := [] }

def parseComplete (req : HttpRequest) : Bool := req.state = .parseSuccess

def getHeader (req : HttpRequest) (key : Bytes) : Option Bytes := req.headers.lookup key

def getParam (req : HttpRequest) (key : Bytes) : Option Bytes := req.param.lookup key

def setBadReq (req : HttpRequest) : HttpRequest :=
  { req with isBadReq := true, state := .parseSuccess }

def pathIsVaild (path : Bytes) : Bool := path ≠ []

/-- The next pair of the query; without a further delimiter it is the rest. -/
def nextParam (rawParam delim : Bytes) (startPos : Nat) : Except Fault Bytes := do
  match ← strGetFirstToken rawParam delim startPos with
  | some keyVal => return keyVal
  | none => substrFrom rawParam startPos

/-- The `while (1)` of `parse_uri` over the query; the fuel bounds its turns. -/
def parseParams : Nat → HttpRequest → Bytes → Nat → Except Fault (HttpRequest × Bool)
  | 0, _, _, _ => .error .endless
  | fuel + 1, req, rawParam, startPos => do
      let delim := bytes "&"
      let keyVal ← nextParam rawParam delim startPos
      let (param, getToken) ← strGetKeyVal req.param keyVal (bytes "=") 0
      let req := { req with param }
      if !getToken then return (req, false)
      else
        let startPos := startPos + (keyVal.length + delim.length)
        if rawParam.length ≤ startPos then return (req, true)
        else parseParams fuel req rawParam startPos

def parseUri (req : HttpRequest) (uri : Bytes) : Except Fault (HttpRequest × Bool) := do
  let delim := bytes "?"
  match ← strGetFirstToken uri delim 0 with
  | none =>
      if uri = [] then return (req, false)
      else return ({ req with path := uri }, true)
  | some path =>
      let req := { req with path }
      if !pathIsVaild req.path then return (req, false)
      else
        let rawParam ← substrFrom uri (req.path.length + delim.length)
        if rawParam = [] then return (req, false)
        else parseParams (rawParam.length + 1) req rawParam 0

/-- What `parse_req_line` does with the text of the line. -/
def parseLine (req : HttpRequest) (line : Bytes) : Except Fault (HttpRequest × Nat) :=
  match findFrom (bytes " ") line 0 with
  | none => .ok (req.setBadReq, 0)
  | some pos => do
      let segment ← substr line 0 pos
      let req := { req with method := httpStrToMethod (cStr segment) }
      if req.method = .unknown then return (req.setBadReq, 0)
      else
        let startPos := pos + 1
        match findFrom (bytes " ") line startPos with
        | none => return (req.setBadReq, 0)
        | some pos =>
            let segment ← substr line startPos (pos - startPos)
            let (req, vaild) ← parseUri req segment
            if !vaild then return (req.setBadReq, 0)
            else
              let startPos := pos + 1
              let segment ← substrFrom line startPos
              if httpStrToVersion (cStr segment) = .unknown then return (req.setBadReq, 0)
              else
                return ({ req with httpVer := segment, state := .parseReqHeader },
                  u32 (line.length + 2))

def parseReqLine (req : HttpRequest) (data : Bytes) (startIdx : Nat) :
    Except Fault (HttpRequest × Nat) :=
  match findFrom crlf data startIdx with
  | none => .ok (req, 0)
  | some lineEnd => do
      let line ← substr data startIdx (lineEnd - startIdx)
      parseLine req line

/-- The `while (1)` of `parse_req_header`; the fuel bounds its turns. -/
def parseHeaderLines : Nat → HttpRequest → Bytes → Nat → Nat → Except Fault (HttpRequest × Nat)
  | 0, _, _, _, _ => .error .endless
  | fuel + 1, req, data, startIdx, parsedBytes => do
      match ← strGetFirstToken data crlf (u32 (startIdx + parsedBytes)) with
      | none => return (req, parsedBytes)
      | some line =>
          if line = [] then
            return ({ req with state := .parseBody }, u32 (parsedBytes + 2))
          else
            let (headers, getToken) ← strGetKeyVal req.headers line (bytes ": ") 0
            let req := { req with headers }
            if !getToken then return (req.setBadReq, parsedBytes)
            else parseHeaderLines fuel req data startIdx (u32 (parsedBytes + (line.length + 2)))

def parseReqHeader (req : HttpRequest) (data : Bytes) (startIdx : Nat) :
    Except Fault (HttpRequest × Nat) :=
  parseHeaderLines (data.length + 1) req data startIdx 0

def parseReqBody (errno : Errno) (req : HttpRequest) (data : Bytes) (startIdx : Nat) :
    Except Fault (HttpRequest × Nat × Errno) :=
  match req.method with
  | .get => .ok ({ req with state := .parseSuccess }, 0, errno)
  | .post =>
      match req.headers.lookup (bytes "Content-Length") with
      | none => .ok ({ req with state := .parseSuccess }, 0, errno)
      | some value =>
          if data.length ≤ startIdx then .ok (req, 0, errno)
          else
            match strToInum strtoul errno value with
            | (none, errno) => .ok (req.setBadReq, 0, errno)
            | (some contentLen, errno) => do
                let remainBodyLen := sizeSub contentLen req.body.length
                let remainBodyLen :=
                  if data.length - startIdx < remainBodyLen then data.length - startIdx
                  else remainBodyLen
                let chunk ← substr data startIdx remainBodyLen
                let req := { req with body := req.body ++ chunk }
                let req :=
                  if req.body.length = contentLen then { req with state := .parseSuccess } else req
                return (req, u32 remainBodyLen, errno)
  | _ => .ok (req.setBadReq, 0, errno)

/-- The second and third phase of `parse`, each only in its own state. -/
def parseAfterLine (errno : Errno) (req : HttpRequest) (data : Bytes) (startIdx parsedBytes : Nat) :
    Except Fault (HttpRequest × Nat × Errno) := do
  let (req, parsedBytes) ←
    if req.state = .parseReqHeader then do
      let (req, more) ← req.parseReqHeader data (u32 (startIdx + parsedBytes))
      pure (req, u32 (parsedBytes + more))
    else pure (req, parsedBytes)
  if req.state = .parseBody then do
    let (req, more, errno) ← req.parseReqBody errno data (u32 (startIdx + parsedBytes))
    return (req, u32 (parsedBytes + more), errno)
  else return (req, parsedBytes, errno)

/-- One call of `parse`: the request afterwards, the number of bytes it parsed
and `errno`. -/
def parse (errno : Errno) (req : HttpRequest) (data : Bytes) (startIdx : Nat) :
    Except Fault (HttpRequest × Nat × Errno) :=
  if req.state = .parseSuccess ∨ data.length ≤ startIdx then .ok (req, 0, errno)
  else do
    let (req, parsedBytes) ←
      if req.state = .parseReqLine then req.parseReqLine data startIdx else pure (req, 0)
    req.parseAfterLine errno data startIdx parsedBytes

end HttpRequest

end LiteWebServer
