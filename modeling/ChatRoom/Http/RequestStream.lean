import ChatRoom.Http.Request
import ChatRoom.Lib.Incremental

/-!
# Requests in a byte stream

`HttpRequest::parse` as an incremental decoder: a request is complete when the
blank line behind its head and the bytes of its body have arrived, and it stays
what it is when more bytes follow.  A stream whose head cannot be parsed waits
forever.
-/

namespace ChatRoom
namespace Http

open Text Incremental

/-- What `parse` finds in the head of a request: the request line and the headers. -/
def parseHead (head : Bytes) : Bool × HttpRequest :=
  let lineEnd := find (bytes "\r\n") head
  let reqLine :=
    match lineEnd with
    | none => head
    | some lineEnd => head.take lineEnd
  match HttpRequest.new.parseRequestLine reqLine with
  | (false, req) => (false, req)
  | (true, req) =>
      match lineEnd with
      | none => (true, req)
      | some lineEnd => (true, req.parseHeaders (head.drop (lineEnd + 2)))

/-- The line that `parse` hands to `parseRequestLine`. -/
def lineOfHead (head : Bytes) : Bytes :=
  match find (bytes "\r\n") head with
  | none => head
  | some lineEnd => head.take lineEnd

/-- What the head of a request makes of any object, and whether its first line is accepted. -/
def HttpRequest.onHead (req : HttpRequest) (head : Bytes) : Bool × HttpRequest :=
  match req.parseRequestLine (lineOfHead head) with
  | (false, req) => (false, req)
  | (true, req) =>
      match find (bytes "\r\n") head with
      | none => (true, req)
      | some lineEnd => (true, req.parseHeaders (head.drop (lineEnd + 2)))

theorem parseHead_eq
    (head : Bytes) :
    parseHead head = HttpRequest.new.onHead head := by
  unfold parseHead HttpRequest.onHead lineOfHead
  cases find (bytes "\r\n") head <;> rfl

theorem fst_onHead
    (req : HttpRequest) (head : Bytes) :
    (req.onHead head).1 = (req.parseRequestLine (lineOfHead head)).1 := by
  unfold HttpRequest.onHead
  cases hparse : req.parseRequestLine (lineOfHead head) with
  | mk complete req' =>
      cases complete with
      | false =>
          rfl
      | true =>
          cases find (bytes "\r\n") head <;> rfl

/-- The length that a request declares for its body. -/
def HttpRequest.contentLength (req : HttpRequest) : Nat :=
  (stoul (req.getHeader (bytes "Content-Length"))).getD 0

/-- The verdict on the front of a stream. -/
def requestVerdict (bs : Bytes) : Verdict HttpRequest :=
  match find (bytes "\r\n\r\n") bs with
  | none => .wait
  | some hdrEnd =>
      match parseHead (bs.take hdrEnd) with
      | (false, _) => .wait
      | (true, req) =>
          if hdrEnd + 4 + req.contentLength ≤ bs.length then
            .done (hdrEnd + 4 + req.contentLength)
              { req with body := (bs.drop (hdrEnd + 4)).take req.contentLength, ok := true }
          else
            .wait

section Decoder

variable {bs : Bytes}

/-- A request is complete. -/
theorem requestVerdict_eq_done_iff
    {n : Nat} {req : HttpRequest} :
    requestVerdict bs = .done n req ↔
      ∃ hdrEnd head, find (bytes "\r\n\r\n") bs = some hdrEnd ∧
        parseHead (bs.take hdrEnd) = (true, head) ∧ n = hdrEnd + 4 + head.contentLength ∧
          n ≤ bs.length ∧
            req = { head with
              body := (bs.drop (hdrEnd + 4)).take head.contentLength
              ok := true } := by
  unfold requestVerdict
  cases hfind : find (bytes "\r\n\r\n") bs with
  | none =>
      simp
  | some hdrEnd =>
      cases hhead : parseHead (bs.take hdrEnd) with
      | mk complete head =>
          cases complete with
          | false =>
              simp [hhead]
          | true =>
              simp only [hhead]
              constructor
              · intro h
                split at h
                · next hlen =>
                    cases h
                    exact ⟨hdrEnd, head, rfl, hhead, rfl, hlen, rfl⟩
                · cases h
              · rintro ⟨hdrEnd', head', hsome, hhead', rfl, hlen, rfl⟩
                cases hsome
                rw [hhead] at hhead'
                cases hhead'
                rw [if_pos hlen]

theorem requestVerdict_ne_malformed
    (bs : Bytes) :
    requestVerdict bs ≠ .malformed := by
  unfold requestVerdict
  cases find (bytes "\r\n\r\n") bs with
  | none =>
      simp
  | some hdrEnd =>
      cases hhead : parseHead (bs.take hdrEnd) with
      | mk complete head =>
          cases complete with
          | false =>
              simp [hhead]
          | true =>
              simp only [hhead]
              split <;> simp

theorem requestVerdict_bounds
    {n : Nat} {req : HttpRequest} (h : requestVerdict bs = .done n req) :
    0 < n ∧ n ≤ bs.length := by
  obtain ⟨hdrEnd, head, -, -, rfl, hlen, -⟩ := requestVerdict_eq_done_iff.mp h
  omega

/-- A request stays what it is when more bytes follow. -/
theorem requestVerdict_append_of_done
    {n : Nat} {req : HttpRequest} (h : requestVerdict bs = .done n req) (ys : Bytes) :
    requestVerdict (bs ++ ys) = .done n req := by
  obtain ⟨hdrEnd, head, hfind, hhead, rfl, hlen, rfl⟩ := requestVerdict_eq_done_iff.mp h
  rw [requestVerdict_eq_done_iff]
  refine ⟨hdrEnd, head, find_append hfind ys, ?_, rfl, ?_, ?_⟩
  · rw [List.take_append_of_le_length (by omega), hhead]
  · rw [List.length_append]
    omega
  · rw [List.drop_append_of_le_length (by omega), List.take_append_of_le_length]
    rw [List.length_drop]
    omega

/-- The decoder of requests. -/
def requestDecoder : Decoder UInt8 HttpRequest where
  decode := requestVerdict
  done_bounds := requestVerdict_bounds
  done_append := requestVerdict_append_of_done
  malformed_append h := absurd h (requestVerdict_ne_malformed _)

/-- No stream fails: a head that cannot be parsed waits. -/
theorem drain_requests_failed
    (bs : Bytes) :
    (requestDecoder.drain bs).failed = false := by
  induction bs using Decoder.drain_induction (d := requestDecoder) with
  | done bs n req h ih =>
      rw [Decoder.drain_done h]
      exact ih
  | wait bs h =>
      rw [Decoder.drain_wait bs h]
  | malformed bs h =>
      exact absurd h (requestVerdict_ne_malformed bs)

end Decoder

section Parse

variable {buf : Buffer}

theorem readable_put_back
    (buf : Buffer) :
    (buf.clear.append buf.readable).readable = buf.readable := by
  rw [Buffer.readable_append, Buffer.readable_clear, List.nil_append]

/-- Without a blank line nothing is assigned. -/
theorem parse_of_no_head
    (hfind : find (bytes "\r\n\r\n") buf.readable = none) (req : HttpRequest) :
    req.parse buf = (false, { req with ok := false }, buf.clear.append buf.readable) := by
  rw [HttpRequest.parse, Buffer.retrieveAllAsString]
  dsimp only
  rw [hfind]

/-- The two ways to take a body differ in what is put back into the buffer. -/
theorem ite_remaining
    (req done : HttpRequest) (back cleared : Buffer) (rest : Bytes) (length : Nat) :
    (if length > rest.length then
        (false, req, back)
      else if length < rest.length then
        (true, done, cleared.append (rest.drop length))
      else
        (true, done, cleared)) =
      if length > rest.length then
        (false, req, back)
      else
        (true, done,
          if length < rest.length then cleared.append (rest.drop length) else cleared) := by
  split_ifs <;> rfl

/-- `parse` on any object, by way of the head of the request. -/
theorem parse_of_head
    {hdrEnd : Nat} (hfind : find (bytes "\r\n\r\n") buf.readable = some hdrEnd)
    (req : HttpRequest) :
    let head := HttpRequest.onHead { req with ok := false } (buf.readable.take hdrEnd)
    let rest := buf.readable.drop (hdrEnd + 4)
    req.parse buf =
      if head.1 then
        if head.2.contentLength > rest.length then
          (false, head.2, buf.clear.append buf.readable)
        else
          (true, { head.2 with body := rest.take head.2.contentLength, ok := true },
            if head.2.contentLength < rest.length then
              buf.clear.append (rest.drop head.2.contentLength)
            else
              buf.clear)
      else
        (false, head.2, buf.clear.append buf.readable) := by
  rw [HttpRequest.parse, Buffer.retrieveAllAsString]
  dsimp only
  rw [hfind]
  dsimp only
  generalize buf.readable.take hdrEnd = head
  generalize { req with ok := false } = begun
  unfold HttpRequest.onHead lineOfHead
  cases hline : find (bytes "\r\n") head with
  | none =>
      dsimp only
      cases hparse : begun.parseRequestLine head with
      | mk complete req' =>
          cases complete with
          | false =>
              rfl
          | true =>
              exact ite_remaining _ _ _ _ _ _
  | some lineEnd =>
      dsimp only
      cases hparse : begun.parseRequestLine (head.take lineEnd) with
      | mk complete req' =>
          cases complete with
          | false =>
              rfl
          | true =>
              exact ite_remaining _ _ _ _ _ _

/-- `parse` takes a complete request off the buffer, and nothing else. -/
theorem parse_of_done
    {n : Nat} {req : HttpRequest} (h : requestVerdict buf.readable = .done n req) :
    ∃ buf', HttpRequest.new.parse buf = (true, req, buf') ∧
      buf'.readable = buf.readable.drop n := by
  obtain ⟨hdrEnd, head, hfind, hhead, rfl, hlen, rfl⟩ := requestVerdict_eq_done_iff.mp h
  have hrest : (buf.readable.drop (hdrEnd + 4)).length = buf.readable.length - (hdrEnd + 4) :=
    List.length_drop
  have honHead : HttpRequest.onHead { HttpRequest.new with ok := false }
      (buf.readable.take hdrEnd) = (true, head) := by
    rw [← hhead, parseHead_eq]
    rfl
  rw [parse_of_head hfind, honHead]
  dsimp only
  rw [if_pos rfl, if_neg (by omega)]
  refine ⟨_, rfl, ?_⟩
  split
  · rw [Buffer.readable_append, Buffer.readable_clear, List.drop_drop, List.nil_append]
  · rw [Buffer.readable_clear, List.drop_eq_nil_of_le (by omega)]

/-- An incomplete request is left in the buffer. -/
theorem parse_of_wait
    (h : requestVerdict buf.readable = .wait) :
    ∃ req buf', HttpRequest.new.parse buf = (false, req, buf') ∧
      buf'.readable = buf.readable := by
  cases hfind : find (bytes "\r\n\r\n") buf.readable with
  | none =>
      exact ⟨_, _, parse_of_no_head hfind _, readable_put_back buf⟩
  | some hdrEnd =>
      have hbounds := find_blank_bounds hfind
      have honHead : HttpRequest.onHead { HttpRequest.new with ok := false }
          (buf.readable.take hdrEnd) = parseHead (buf.readable.take hdrEnd) :=
        (parseHead_eq _).symm
      rw [parse_of_head hfind, honHead]
      dsimp only
      cases hhead : parseHead (buf.readable.take hdrEnd) with
      | mk complete head =>
          cases complete with
          | false =>
              exact ⟨_, _, rfl, readable_put_back buf⟩
          | true =>
              have hshort : head.contentLength > (buf.readable.drop (hdrEnd + 4)).length := by
                rw [List.length_drop]
                by_contra hlong
                have hdone := requestVerdict_eq_done_iff.mpr
                  ⟨hdrEnd, head, hfind, hhead, rfl, by omega, rfl⟩
                rw [h] at hdone
                cases hdone
              dsimp only
              rw [if_pos rfl, if_pos hshort]
              exact ⟨_, _, rfl, readable_put_back buf⟩

end Parse

end Http
end ChatRoom
