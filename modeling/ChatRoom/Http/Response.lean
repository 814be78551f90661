import ChatRoom.Common.Json
import ChatRoom.Common.Text
import Mathlib.Data.List.AList

/-!
# HTTP responses

`HttpResponse` (server/http_response.h, server/http_response.cpp) and `jsonResp`
of server/http_handler.cpp.
-/

namespace ChatRoom
namespace Http

open Text

/-- `HttpResponse` -/
structure HttpResponse where
  statusCode : Int
  reason : Bytes
  headers : AList fun _ : Bytes => Bytes
  body : Bytes
  keepAlive : Bool

/-- `defaultReason` -/
def defaultReason (code : Int) : Bytes :=
  if code = 200 then bytes "OK"
  else if code = 201 then bytes "Created"
  else if code = 204 then bytes "No Content"
  else if code = 301 then bytes "Moved Permanently"
  else if code = 302 then bytes "Found"
  else if code = 304 then bytes "Not Modified"
  else if code = 400 then bytes "Bad Request"
  else if code = 401 then bytes "Unauthorized"
  else if code = 403 then bytes "Forbidden"
  else if code = 404 then bytes "Not Found"
  else if code = 405 then bytes "Method Not Allowed"
  else if code = 411 then bytes "Length Required"
  else if code = 413 then bytes "Payload Too Large"
  else if code = 500 then bytes "Internal Server Error"
  else if code = 501 then bytes "Not Implemented"
  else if code = 502 then bytes "Bad Gateway"
  else if code = 503 then bytes "Service Unavailable"
  else bytes "Unknown"

namespace HttpResponse

/-- `HttpResponse::HttpResponse()` -/
def new : HttpResponse where
  statusCode := 200
  reason := bytes "OK"
  headers := ∅
  body := []
  keepAlive := false

/-- `HttpResponse::HttpResponse(int)` -/
def ofCode (code : Int) : HttpResponse :=
  { new with statusCode := code, reason := defaultReason code }

/-- `HttpResponse::status` -/
def status (r : HttpResponse) (code : Int) (reason : Bytes) : HttpResponse :=
  { r with
    statusCode := code
    reason := if reason.isEmpty then defaultReason code else reason }

/-- `HttpResponse::header` -/
def header (r : HttpResponse) (k v : Bytes) : HttpResponse :=
  { r with headers := r.headers.insert k v }

/-- `HttpResponse::contentType` -/
def contentType (r : HttpResponse) (mime : Bytes) : HttpResponse :=
  r.header (bytes "Content-Type") mime

/-- `HttpResponse::body` -/
def setBody (r : HttpResponse) (s : Bytes) : HttpResponse :=
  { r with body := s }

/-- `HttpResponse::bodyJson` -/
def bodyJson (r : HttpResponse) (jsonStr : Bytes) : HttpResponse :=
  { r.header (bytes "Content-Type") (bytes "application/json") with body := jsonStr }

/-- `HttpResponse::setKeepAlive` -/
def setKeepAlive (r : HttpResponse) (ka : Bool) : HttpResponse :=
  { r with keepAlive := ka }

/-- A header with this name, in any letter case, has been set. -/
def hasHeader (r : HttpResponse) (name : Bytes) : Bool :=
  r.headers.keys.any fun k => toLower k = name

/-- `HttpResponse::toString` -/
def toString (r : HttpResponse) : Bytes :=
  bytes "HTTP/1.1 " ++ bytes (ToString.toString r.statusCode) ++ bytes " " ++ r.reason ++
    bytes "\r\n" ++
    (r.headers.entries.flatMap fun kv => kv.1 ++ bytes ":" ++ kv.2 ++ bytes "\r\n") ++
    (if r.hasHeader (bytes "content-length") then []
      else bytes "Content-Length: " ++ decimal r.body.length ++ bytes "\r\n") ++
    (if r.hasHeader (bytes "connection") then []
      else bytes "Connection: " ++ bytes (if r.keepAlive then "keep-alive" else "close") ++
        bytes "\r\n") ++
    bytes "\r\n" ++ r.body

/-- `HttpResponse::makeError` -/
def makeError (code : Int) (msg : String) : HttpResponse :=
  { (ofCode code).contentType (bytes "application/json") with
    body := bytes ("\x7b\"error\":\"" ++ msg ++ "\"\x7d") }

end HttpResponse

/-- `jsonResp` -/
def jsonResp (J : JsonLib) (code : Int) (j : Json) : HttpResponse :=
  (HttpResponse.ofCode code).bodyJson (J.dump j)

end Http
end ChatRoom
