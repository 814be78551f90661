import ChatRoom.Common.Buffer
import ChatRoom.Common.Text
import Mathlib.Data.List.AList

/-!
# HTTP requests

`HttpRequest` (server/http_request.h, server/http_request.cpp).  `parse` takes
one request off the front of a buffer.  When it does not find a complete
request it puts everything back and returns false; the object then keeps what
had been assigned so far.
-/

namespace ChatRoom
namespace Http

open Text

/-- `HttpRequest` -/
structure HttpRequest where
  ok : Bool
  method : Bytes
  path : Bytes
  query : Bytes
  version : Bytes
  headers : AList fun _ : Bytes => Bytes
  body : Bytes

namespace HttpRequest

/-- `HttpRequest req;` -/
def new : HttpRequest where
  ok := false
  method := []
  path := []
  query := []
  version := []
  headers := ∅
  body := []

/-- `HttpRequest::getHeader` -/
def getHeader (req : HttpRequest) (k : Bytes) : Bytes :=
  (req.headers.lookup (toLower k)).getD []

/-- The loop of `getQuery`, on what is left of the query; every turn but the last
one shortens it, so its length is enough `fuel`. -/
def getQueryFrom (k : Bytes) : Nat → Bytes → Bytes
  | 0, _ => []
  | fuel + 1, rest =>
      if rest.isEmpty then
        []
      else
        match find (bytes "=") rest with
        | none => []
        | some eq =>
            let amp := findFrom (bytes "&") rest eq
            let key := substr rest 0 eq
            let val :=
              match amp with
              | none => rest.drop (eq + 1)
              | some amp => substr rest (eq + 1) (amp - eq - 1)
            if key = k then
              val
            else
              match amp with
              | none => []
              | some amp => getQueryFrom k fuel (rest.drop (amp + 1))

/-- `HttpRequest::getQuery` -/
def getQuery (req : HttpRequest) (k : Bytes) : Bytes :=
  getQueryFrom k req.query.length req.query

/-- `HttpRequest::parseRequestLine` -/
def parseRequestLine (req : HttpRequest) (line : Bytes) : Bool × HttpRequest :=
  match find (bytes " ") line with
  | none => (false, req)
  | some sp1 =>
      match findFrom (bytes " ") line (sp1 + 1) with
      | none => (false, req)
      | some sp2 =>
          let url := substr line (sp1 + 1) (sp2 - sp1 - 1)
          let req := { req with method := substr line 0 sp1, version := line.drop (sp2 + 1) }
          if req.version ≠ bytes "HTTP/1.1" ∧ req.version ≠ bytes "HTTP/1.0" then
            (false, req)
          else
            let req :=
              match find (bytes "?") url with
              | none => { req with path := url, query := [] }
              | some q => { req with path := url.take q, query := url.drop (q + 1) }
            (!req.path.isEmpty, req)

/-- One line of the header block. -/
def parseHeaderLine (req : HttpRequest) (line : Bytes) : HttpRequest :=
  match find (bytes ":") line with
  | none => req
  | some colon =>
      let k := toLower (trim (line.take colon))
      let v := trim (line.drop (colon + 1))
      { req with headers := req.headers.insert k v }

/-- The loop of `parseHeaders`, on what is left of the block; every turn
shortens it, so its length is enough `fuel`. -/
def parseHeadersFrom : Nat → HttpRequest → Bytes → HttpRequest
  | 0, req, _ => req
  | fuel + 1, req, block =>
      if block.isEmpty then
        req
      else
        match find (bytes "\r\n") block with
        | none => parseHeaderLine req block
        | some endPos =>
            parseHeadersFrom fuel (parseHeaderLine req (block.take endPos))
              (block.drop (endPos + 2))

/-- `HttpRequest::parseHeaders` -/
def parseHeaders (req : HttpRequest) (block : Bytes) : HttpRequest :=
  parseHeadersFrom block.length req block

/-- `HttpRequest::parse`; the result is the returned flag, the object and the
buffer. -/
def parse (req : HttpRequest) (buf : Buffer) : Bool × HttpRequest × Buffer :=
  let req := { req with ok := false }
  let (snap, buf) := buf.retrieveAllAsString
  match find (bytes "\r\n\r\n") snap with
  | none => (false, req, buf.append snap)
  | some hdrEnd =>
      let head := snap.take hdrEnd
      let rest := snap.drop (hdrEnd + 4)
      let lineEnd := find (bytes "\r\n") head
      let reqLine :=
        match lineEnd with
        | none => head
        | some lineEnd => head.take lineEnd
      match parseRequestLine req reqLine with
      | (false, req) => (false, req, buf.append snap)
      | (true, req) =>
          let req :=
            match lineEnd with
            | none => req
            | some lineEnd => parseHeaders req (head.drop (lineEnd + 2))
          let contentLength := (stoul (req.getHeader (bytes "Content-Length"))).getD 0
          if contentLength > rest.length then
            (false, req, buf.append snap)
          else
            let req := { req with body := rest.take contentLength, ok := true }
            if contentLength < rest.length then
              (true, req, buf.append (rest.drop contentLength))
            else
              (true, req, buf)

end HttpRequest
end Http
end ChatRoom
