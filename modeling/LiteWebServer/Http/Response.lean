import LiteWebServer.FilePathUtil
import LiteWebServer.Http.Request

namespace LiteWebServer

open Data

def getFileContentType (path : Bytes) : HttpContentType :=
  let extension := getFileExtension path
  if extension = bytes ".html" then .htmlType
  else if extension = bytes ".json" then .jsonType
  else if extension = bytes ".ico" then .xiconType
  else if extension = bytes ".css" then .cssType
  else if extension = bytes ".js" then .jsType
  else if extension = bytes ".svg" then .svgxmlType
  else if extension = bytes ".jpeg" then .jpegType
  else if extension = bytes ".png" then .pngType
  else if extension = bytes ".gif" then .gifType
  else .unknown

/-- The text `make_base_rsp` builds: status line, headers in iteration order, and
the empty line. -/
def baseText (httpVer : Bytes) (code : HttpCode) (headers : StringMap) : Bytes :=
  httpVer ++ bytes " " ++ decimal code.number ++ bytes " " ++ httpCodeToStr code ++ crlf ++
    (headers.entries.flatMap fun kv => kv.1 ++ bytes ": " ++ kv.2 ++ crlf) ++ crlf

/-- A response.  A head that counts as made is the head of the present fields. -/
structure HttpResponse where
  httpVer : Bytes
  code : HttpCode
  headers : StringMap
  makedBaseRsp : Bool
  baseRsp : Bytes
  body : Bytes
  bodyType : HttpContentType
  bodyIsFile : Bool
  made : makedBaseRsp = true → baseRsp = baseText httpVer code headers

/-- `DEL` erases the key; the other values of `HeaderOper` are `ADD` and `MODIFY`,
which do the same, and `CLEAR`. -/
inductive HeaderOper where
  | add | del | modify | clear
deriving DecidableEq, Repr

/-- `LITEWEBSERVER_NAME_VER` as the build file fills it in. -/
def nameVer : Bytes := bytes "LiteWebServer/1.0.0"

namespace HttpResponse

variable (order : HashOrder Bytes Bytes)

/-- The headers every response starts with. -/
def initialHeaders : StringMap :=
  let headers := UnorderedMap.assign order ∅ (bytes "Content-Type") (bytes "text/html; charset=UTF-8")
  let headers := headers.assign order (bytes "Connection") (bytes "close")
  headers.assign order (bytes "Server") nameVer

/-- The constructor: the `Connection` header of the request, if there is one, is
taken over. -/
def ofRequest (req : HttpRequest) : HttpResponse where
  httpVer := req.httpVer
  code := .ok
  headers :=
    match req.getHeader (bytes "Connection") with
    | some value => (initialHeaders order).assign order (bytes "Connection") value
    | none => initialHeaders order
  makedBaseRsp := false
  baseRsp := []
  body := []
  bodyType := .htmlType
  bodyIsFile := true
  made := nofun

theorem ofRequest_headers (req : HttpRequest) :
    (ofRequest order req).headers = (req.getHeader (bytes "Connection")).elim (initialHeaders order)
      ((initialHeaders order).assign order (bytes "Connection")) := by
  unfold ofRequest
  dsimp only
  cases req.getHeader (bytes "Connection") <;> rfl

/-- `reset` emplaces the initial headers into the cleared map. -/
def reset (_ : HttpResponse) : HttpResponse where
  httpVer := []
  code := .ok
  headers := initialHeaders order
  makedBaseRsp := false
  baseRsp := []
  body := []
  bodyType := .htmlType
  bodyIsFile := true
  made := nofun

def setCode (rsp : HttpResponse) (code : HttpCode) : HttpResponse :=
  { rsp with makedBaseRsp := false, code, made := nofun }

def headerOper (rsp : HttpResponse) (oper : HeaderOper) (key value : Bytes) : HttpResponse :=
  match oper with
  | .add | .modify =>
      { rsp with headers := rsp.headers.assign order key value, makedBaseRsp := false, made := nofun }
  | .del =>
      if key ∈ rsp.headers then
        { rsp with headers := rsp.headers.erase key, makedBaseRsp := false, made := nofun }
      else rsp
  | .clear => { rsp with headers := ∅, makedBaseRsp := false, made := nofun }

def getHeader (rsp : HttpResponse) (key : Bytes) : Option Bytes := rsp.headers.lookup key

def defCharset : HttpContentType → Bytes
  | .htmlType | .jsonType | .cssType => bytes "; charset=UTF-8"
  | _ => []

/-- An unknown type is not announced at all. -/
def updateContentType (rsp : HttpResponse) (type : HttpContentType) (charset : Bytes) : HttpResponse :=
  let rsp := { rsp with bodyType := type }
  if type = .unknown then rsp.headerOper order .del (bytes "Content-Type") []
  else if charset ≠ [] then
    rsp.headerOper order .modify (bytes "Content-Type")
      (httpContentTypeToStr type ++ (bytes "; charset=" ++ charset))
  else
    rsp.headerOper order .modify (bytes "Content-Type") (httpContentTypeToStr type ++ defCharset type)

/-- Only a body in memory gets its `Content-Length` here. -/
def setBody (rsp : HttpResponse) (data : Bytes) (isFile : Bool) : HttpResponse :=
  let rsp := { rsp with bodyIsFile := isFile }
  let rsp :=
    if !rsp.bodyIsFile then
      rsp.headerOper order .add (bytes "Content-Length") (decimal data.length)
    else rsp
  { rsp with body := data }

def setBodyFile (rsp : HttpResponse) (path : Bytes) (type : HttpContentType) (charset : Bytes) :
    HttpResponse :=
  (rsp.setBody order path true).updateContentType order type charset

def setBodyBin (rsp : HttpResponse) (data : Bytes) (type : HttpContentType) (charset : Bytes) :
    HttpResponse :=
  (rsp.setBody order data false).updateContentType order type charset

def setNoBody (rsp : HttpResponse) : HttpResponse :=
  let rsp := { rsp with bodyIsFile := false }
  let rsp := rsp.headerOper order .modify (bytes "Content-Length") (bytes "0")
  rsp.headerOper order .del (bytes "Content-Type") []

def head (rsp : HttpResponse) : Bytes := baseText rsp.httpVer rsp.code rsp.headers

def makeBaseRsp (rsp : HttpResponse) : HttpResponse :=
  if rsp.makedBaseRsp then rsp
  else { rsp with baseRsp := rsp.head, makedBaseRsp := true, made := fun _ => rfl }

/-- `get_base_rsp` renders the head on its first use; the result is `baseRsp`. -/
def getBaseRsp (rsp : HttpResponse) : HttpResponse :=
  if !rsp.makedBaseRsp then rsp.makeBaseRsp else rsp

variable {order} {rsp : HttpResponse}

theorem getHeader_add (key value other : Bytes) :
    (rsp.headerOper order .add key value).getHeader other =
      if other = key then some value else rsp.getHeader other :=
  UnorderedMap.lookup_assign order rsp.headers key other value

theorem getHeader_modify (key value other : Bytes) :
    (rsp.headerOper order .modify key value).getHeader other =
      if other = key then some value else rsp.getHeader other :=
  UnorderedMap.lookup_assign order rsp.headers key other value

theorem getHeader_del (key value other : Bytes) :
    (rsp.headerOper order .del key value).getHeader other =
      if other = key then none else rsp.getHeader other := by
  unfold headerOper getHeader
  dsimp only
  split
  · by_cases same : other = key
    · rw [if_pos same, same]
      exact AList.lookup_erase key rsp.headers
    · rw [if_neg same]
      exact AList.lookup_erase_ne same
  · rename_i absent
    by_cases same : other = key
    · rw [if_pos same, same]
      exact AList.lookup_eq_none.mpr absent
    · rw [if_neg same]

theorem length_getHeader_le {key value : Bytes} (found : rsp.getHeader key = some value) :
    value.length ≤ rsp.head.length := by
  obtain ⟨front, back, entries⟩ := List.append_of_mem (AList.mem_lookup_iff.mp found)
  simp only [head, baseText, entries, List.flatMap_append, List.flatMap_cons, List.length_append]
  omega

theorem head_modify_same {key value : Bytes} (found : rsp.getHeader key = some value) :
    (rsp.headerOper order .modify key value).head = rsp.head :=
  congrArg (baseText rsp.httpVer rsp.code) (UnorderedMap.assign_same order found)

theorem headerOper_body (oper : HeaderOper) (key value : Bytes) :
    (rsp.headerOper order oper key value).body = rsp.body ∧
      (rsp.headerOper order oper key value).bodyIsFile = rsp.bodyIsFile := by
  cases oper with
  | add => exact ⟨rfl, rfl⟩
  | modify => exact ⟨rfl, rfl⟩
  | clear => exact ⟨rfl, rfl⟩
  | del =>
      unfold headerOper
      dsimp only
      split <;> exact ⟨rfl, rfl⟩

theorem updateContentType_body (type : HttpContentType) (charset : Bytes) :
    (rsp.updateContentType order type charset).body = rsp.body ∧
      (rsp.updateContentType order type charset).bodyIsFile = rsp.bodyIsFile := by
  unfold updateContentType
  dsimp only
  split
  · exact headerOper_body _ _ _
  · split
    · exact headerOper_body _ _ _
    · exact headerOper_body _ _ _

theorem headerOper_httpVer (oper : HeaderOper) (key value : Bytes) :
    (rsp.headerOper order oper key value).httpVer = rsp.httpVer := by
  cases oper with
  | add => rfl
  | modify => rfl
  | clear => rfl
  | del =>
      unfold headerOper
      dsimp only
      split <;> rfl

theorem updateContentType_httpVer (type : HttpContentType) (charset : Bytes) :
    (rsp.updateContentType order type charset).httpVer = rsp.httpVer := by
  unfold updateContentType
  dsimp only
  split
  · exact headerOper_httpVer _ _ _
  · split
    · exact headerOper_httpVer _ _ _
    · exact headerOper_httpVer _ _ _

theorem setBodyFile_body (path : Bytes) (type : HttpContentType) (charset : Bytes) :
    (rsp.setBodyFile order path type charset).body = path ∧
      (rsp.setBodyFile order path type charset).bodyIsFile = true :=
  updateContentType_body type charset

theorem setBodyBin_body (data : Bytes) (type : HttpContentType) (charset : Bytes) :
    (rsp.setBodyBin order data type charset).body = data ∧
      (rsp.setBodyBin order data type charset).bodyIsFile = false :=
  updateContentType_body type charset

theorem setNoBody_body :
    (rsp.setNoBody order).body = rsp.body ∧ (rsp.setNoBody order).bodyIsFile = false :=
  headerOper_body _ _ _

theorem getBaseRsp_baseRsp : rsp.getBaseRsp.baseRsp = rsp.head := by
  unfold getBaseRsp makeBaseRsp
  cases state : rsp.makedBaseRsp with
  | false => rfl
  | true => exact rsp.made state

@[simp] theorem getBaseRsp_getBaseRsp : rsp.getBaseRsp.getBaseRsp = rsp.getBaseRsp := by
  unfold getBaseRsp makeBaseRsp
  cases state : rsp.makedBaseRsp <;> simp [state]

@[simp] theorem getBaseRsp_head : rsp.getBaseRsp.head = rsp.head := by
  unfold getBaseRsp makeBaseRsp
  cases rsp.makedBaseRsp <;> rfl

@[simp] theorem getBaseRsp_body : rsp.getBaseRsp.body = rsp.body := by
  unfold getBaseRsp makeBaseRsp
  cases rsp.makedBaseRsp <;> rfl

@[simp] theorem getBaseRsp_bodyIsFile : rsp.getBaseRsp.bodyIsFile = rsp.bodyIsFile := by
  unfold getBaseRsp makeBaseRsp
  cases rsp.makedBaseRsp <;> rfl

end HttpResponse

/-! ## Handlers -/

section

variable (order : HashOrder Bytes Bytes)

def rootHandler (req : HttpRequest) : HttpResponse :=
  (HttpResponse.ofRequest order req).setBodyFile order (req.path ++ bytes "index.html") .htmlType []

def staticFileHandler (req : HttpRequest) : HttpResponse :=
  (HttpResponse.ofRequest order req).setBodyFile order req.path (getFileContentType req.path) []

def errBody (code : HttpCode) : Bytes :=
  bytes "<!DOCTYPE html>\r\n<html>\r\n<head><title>Lite Web Server</title></head>\r\n<body><h1>" ++
    (httpCodeToStr code ++ bytes ".</h1></body>\r\n</html>\r\n")

def defErrHandler (code : HttpCode) (req : HttpRequest) : HttpResponse :=
  let rsp := (HttpResponse.ofRequest order req).setCode code
  let rsp := rsp.headerOper order .modify (bytes "Connection") (bytes "close")
  rsp.setBodyBin order (errBody code) .htmlType []

def errHandler301 (req : HttpRequest) : HttpResponse :=
  let rsp := (HttpResponse.ofRequest order req).setCode .movedPermanently
  let rsp := rsp.headerOper order .add (bytes "Location") (req.path ++ bytes "/")
  rsp.setNoBody order

def errHandler400 (req : HttpRequest) : HttpResponse := defErrHandler order .badRequest req

def errHandler404 (req : HttpRequest) : HttpResponse := defErrHandler order .notFound req

def errHandler405 (req : HttpRequest) : HttpResponse := defErrHandler order .notAllowed req

def errHandler500 (req : HttpRequest) : HttpResponse := defErrHandler order .internalServerError req

end

end LiteWebServer
