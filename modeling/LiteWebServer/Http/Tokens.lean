import LiteWebServer.StringUtil

namespace LiteWebServer

inductive HttpMethod where
  | unknown | get | post | put | delete | head | connect | options | trace | patch
deriving DecidableEq, Repr

inductive HttpCode where
  | unknown | ok | movedPermanently | badRequest | notFound | forbidden | notAllowed
  | internalServerError
deriving DecidableEq, Repr

inductive HttpVersion where
  | unknown | http10 | http11
deriving DecidableEq, Repr

inductive HttpContentType where
  | unknown | htmlType | jsonType | xiconType | cssType | jsType | svgxmlType | jpegType
  | pngType | gifType | xwwwformUrlencodedType
deriving DecidableEq, Repr

def httpMethodEnum : List (HttpMethod × Bytes) :=
  [(.unknown, bytes "UNKNOWN"), (.get, bytes "GET"), (.post, bytes "POST"), (.put, bytes "PUT"),
    (.delete, bytes "DELETE"), (.head, bytes "HEAD"), (.connect, bytes "CONNECT"),
    (.options, bytes "OPTIONS"), (.trace, bytes "TRACE"), (.patch, bytes "PATCH")]

def httpVersionEnum : List (HttpVersion × Bytes) :=
  [(.unknown, bytes "Unknown"), (.http10, bytes "HTTP/1.0"), (.http11, bytes "HTTP/1.1")]

/-- `http_str_to_enum` for one table: the first row whose name equals the C
string, tried from the top. -/
def httpStrToEnum (rows : List (ε × Bytes)) (unknown : ε) (str : Bytes) : ε :=
  ((rows.find? fun row => chStrIsEqual str row.2).map Prod.fst).getD unknown

def httpStrToMethod (str : Bytes) : HttpMethod := httpStrToEnum httpMethodEnum .unknown str

def httpStrToVersion (str : Bytes) : HttpVersion := httpStrToEnum httpVersionEnum .unknown str

def httpMethodToStr : HttpMethod → Bytes
  | .unknown => bytes "UNKNOWN"
  | .get => bytes "GET"
  | .post => bytes "POST"
  | .put => bytes "PUT"
  | .delete => bytes "DELETE"
  | .head => bytes "HEAD"
  | .connect => bytes "CONNECT"
  | .options => bytes "OPTIONS"
  | .trace => bytes "TRACE"
  | .patch => bytes "PATCH"

def HttpCode.number : HttpCode → Nat
  | .unknown => 0
  | .ok => 200
  | .movedPermanently => 301
  | .badRequest => 400
  | .notFound => 404
  | .forbidden => 403
  | .notAllowed => 405
  | .internalServerError => 500

def httpCodeToStr : HttpCode → Bytes
  | .unknown => bytes "Unknown"
  | .ok => bytes "OK"
  | .movedPermanently => bytes "Moved Permanently"
  | .badRequest => bytes "Bad Request"
  | .notFound => bytes "Not Found"
  | .forbidden => bytes "Forbidden"
  | .notAllowed => bytes "Method Not Allowed"
  | .internalServerError => bytes "Internal Server Error"

def httpContentTypeToStr : HttpContentType → Bytes
  | .unknown => bytes ""
  | .htmlType => bytes "text/html"
  | .jsonType => bytes "application/json"
  | .xiconType => bytes "image/x-icon"
  | .cssType => bytes "text/css"
  | .jsType => bytes "text/javascript"
  | .svgxmlType => bytes "image/svg+xml"
  | .jpegType => bytes "image/jpeg"
  | .pngType => bytes "image/png"
  | .gifType => bytes "image/gif"
  | .xwwwformUrlencodedType => bytes "application/x-www-form-urlencoded"

end LiteWebServer
