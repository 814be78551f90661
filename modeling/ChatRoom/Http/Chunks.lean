import ChatRoom.Http.DeclaredLength
import ChatRoom.Http.RequestStream

/-!
# Requests out of a buffer that is filled in chunks

The loop of `HttpConnection::onRead`: after each chunk of bytes, requests are
parsed off the buffer, each into a fresh `HttpRequest`, until `parse` returns
false.  The loop has no bound in the source, so it ends only if enough fuel gives
a result.

A reader stands for a drained stream (`RequestReader.Drains`), and a chunk
extends that stream.  So the requests and the unread bytes depend on the bytes
only, and not on where they were cut.
-/

namespace ChatRoom
namespace Http

open Text Incremental

/-- A buffer and the requests that have been parsed off it. -/
structure RequestReader where
  buffer : Buffer
  requests : List HttpRequest

namespace RequestReader

/-- A reader with a fresh buffer. -/
def new : RequestReader where
  buffer := Buffer.new
  requests := []

/-- The loop `HttpRequest req; if(!req.parse(readBuf_)){return;} onRequest_(req,*this);`.
`none`: it has not returned after `fuel` turns. -/
def parseAll : Nat → RequestReader → Option RequestReader
  | 0, _ => none
  | fuel + 1, s =>
      let (complete, req, buffer) := HttpRequest.new.parse s.buffer
      if complete then
        parseAll fuel { buffer := buffer, requests := s.requests ++ [req] }
      else
        some { s with buffer := buffer }

/-- A chunk is appended and the loop runs. -/
def feed (fuel : Nat) (s : RequestReader) (chunk : Bytes) : Option RequestReader :=
  parseAll fuel { s with buffer := s.buffer.append chunk }

/-- Chunk after chunk. -/
def feedAll (fuel : Nat) : RequestReader → List Bytes → Option RequestReader
  | s, [] => some s
  | s, chunk :: chunks => (feed fuel s chunk).bind fun s' => feedAll fuel s' chunks

/-- The reader has the requests and the unread bytes of a drained stream. -/
structure Drains (s : RequestReader) (stream : Drained UInt8 HttpRequest) : Prop where
  requests : s.requests = stream.items
  unread : s.buffer.readable = stream.unread

/-- The loop returns, and it has drained what was readable. -/
theorem parseAll_drains
    (s : RequestReader) :
    ∃ s' : RequestReader, (∀ fuel > s.buffer.readable.length, parseAll fuel s = some s') ∧
      s'.Drains
        { requestDecoder.drain s.buffer.readable with
          items := s.requests ++ (requestDecoder.drain s.buffer.readable).items } := by
  generalize hbs : s.buffer.readable = bs
  induction bs using Decoder.drain_induction (d := requestDecoder) generalizing s with
  | done bs n req h ih =>
      obtain ⟨buffer, hparse, hread⟩ := parse_of_done (hbs ▸ h)
      have hbounds := requestVerdict_bounds h
      rw [hbs] at hread
      obtain ⟨s', hloop, hdrains⟩ :=
        ih { buffer := buffer, requests := s.requests ++ [req] } hread
      refine ⟨s', ?_, ?_⟩
      · intro fuel hfuel
        obtain ⟨fuel, rfl⟩ := Nat.exists_eq_add_of_lt hfuel
        rw [parseAll, hparse]
        apply hloop
        rw [List.length_drop]
        omega
      · rw [Decoder.drain_done h]
        simpa using hdrains
  | wait bs h =>
      obtain ⟨req, buffer, hparse, hread⟩ := parse_of_wait (hbs ▸ h)
      refine ⟨{ s with buffer := buffer }, ?_, ?_⟩
      · intro fuel hfuel
        obtain ⟨fuel, rfl⟩ := Nat.exists_eq_add_of_lt hfuel
        rw [parseAll, hparse]
        rfl
      · rw [Decoder.drain_wait bs h]
        exact ⟨by simp, hread.trans hbs⟩
  | malformed bs h =>
      exact absurd h (requestVerdict_ne_malformed bs)

/-- A chunk extends the stream. -/
theorem feed_drains
    {s : RequestReader} {bs : Bytes} (hs : s.Drains (requestDecoder.drain bs)) (chunk : Bytes) :
    ∃ s' : RequestReader, (∀ fuel > (bs ++ chunk).length, feed fuel s chunk = some s') ∧
      s'.Drains (requestDecoder.drain (bs ++ chunk)) := by
  have hread : (s.buffer.append chunk).readable =
      (requestDecoder.drain bs).unread ++ chunk := by
    rw [Buffer.readable_append, hs.unread]
  obtain ⟨s', hloop, hdrains⟩ := parseAll_drains { s with buffer := s.buffer.append chunk }
  refine ⟨s', ?_, ?_⟩
  · intro fuel hfuel
    have hunread := requestDecoder.length_unread_le bs
    apply hloop
    rw [hread]
    rw [List.length_append] at hfuel ⊢
    omega
  · rw [Decoder.drain_append, Decoder.extend, drain_requests_failed]
    simpa [hread, hs.requests] using hdrains

/-- Chunk by chunk, a reader drains what the chunks make up together. -/
theorem feedAll_drains
    {s : RequestReader} {bs : Bytes} (hs : s.Drains (requestDecoder.drain bs))
    (chunks : List Bytes) :
    ∃ s' : RequestReader,
      (∀ fuel > (bs ++ chunks.flatten).length, s.feedAll fuel chunks = some s') ∧
        s'.Drains (requestDecoder.drain (bs ++ chunks.flatten)) := by
  induction chunks generalizing s bs with
  | nil =>
      exact ⟨s, fun _ _ => rfl, by simpa using hs⟩
  | cons chunk chunks ih =>
      obtain ⟨s₁, hfeed, hs₁⟩ := feed_drains hs chunk
      obtain ⟨s', hrest, hs'⟩ := ih hs₁
      rw [List.flatten_cons, ← List.append_assoc]
      refine ⟨s', ?_, hs'⟩
      intro fuel hfuel
      have hfront : fuel > (bs ++ chunk).length := by
        rw [List.length_append] at hfuel
        omega
      rw [feedAll, hfeed fuel hfront]
      exact hrest fuel hfuel

theorem drains_new :
    new.Drains (requestDecoder.drain []) := by
  rw [Decoder.drain_wait (d := requestDecoder) [] rfl]
  exact ⟨rfl, Buffer.readable_new⟩

end RequestReader

/-- What `parse` does to the readable bytes: without a complete request they stay as
they are; with one, the head, the blank line and a body of the declared length, 0 if `stoul`
throws, are taken off the front. -/
theorem readable_parse
    (buf : Buffer) :
    match HttpRequest.new.parse buf with
    | (false, _, buf') => buf'.readable = buf.readable
    | (true, req, buf') =>
        ∃ hdrEnd, find (bytes "\r\n\r\n") buf.readable = some hdrEnd ∧
          req.body.length = ((declaredLengths buf.readable).getLast?.bind stoul).getD 0 ∧
            buf.readable =
              buf.readable.take hdrEnd ++ bytes "\r\n\r\n" ++ req.body ++ buf'.readable := by
  cases hverdict : requestVerdict buf.readable with
  | done n req =>
      obtain ⟨buf', hparse, hread⟩ := parse_of_done hverdict
      obtain ⟨hdrEnd, head, hfind, hhead, rfl, hlen, rfl⟩ :=
        requestVerdict_eq_done_iff.mp hverdict
      rw [hparse]
      refine ⟨hdrEnd, hfind, body_length_eq hparse, ?_⟩
      have hbehind : buf.readable.drop (hdrEnd + 4) =
          (buf.readable.drop (hdrEnd + 4)).take head.contentLength ++ buf'.readable := by
        rw [hread, ← List.drop_drop (i := head.contentLength), List.take_append_drop]
      have hsplit := find_split hfind
      have hpattern : (bytes "\r\n\r\n").length = 4 := by decide
      rw [hpattern, hbehind] at hsplit
      simpa [List.append_assoc] using hsplit
  | wait =>
      obtain ⟨req, buf', hparse, hread⟩ := parse_of_wait hverdict
      rw [hparse]
      exact hread
  | malformed =>
      exact absurd hverdict (requestVerdict_ne_malformed _)

/-- The loop ends after every chunk.  A reader that gets the bytes in chunks ends with the
requests and the unread bytes of one that gets them at once, and a turn of the loop leaves
the readable bytes alone or takes exactly one request off their front, with a body as long as
the last `Content-Length` line of the header block says. -/
theorem feedAll_flatten
    (chunks : List Bytes) :
    (∃ s t : RequestReader,
      (∀ fuel > chunks.flatten.length,
        RequestReader.new.feedAll fuel chunks = some s ∧
          RequestReader.new.feedAll fuel [chunks.flatten] = some t) ∧
        s.requests = t.requests ∧ s.buffer.readable = t.buffer.readable) ∧
    ∀ buf : Buffer,
      match HttpRequest.new.parse buf with
      | (false, _, buf') => buf'.readable = buf.readable
      | (true, req, buf') =>
          ∃ hdrEnd, find (bytes "\r\n\r\n") buf.readable = some hdrEnd ∧
            req.body.length = ((declaredLengths buf.readable).getLast?.bind stoul).getD 0 ∧
              buf.readable =
                buf.readable.take hdrEnd ++ bytes "\r\n\r\n" ++ req.body ++ buf'.readable := by
  obtain ⟨s, hs, hsdrains⟩ := RequestReader.feedAll_drains RequestReader.drains_new chunks
  obtain ⟨t, ht, htdrains⟩ :=
    RequestReader.feedAll_drains RequestReader.drains_new [chunks.flatten]
  rw [List.nil_append] at hs hsdrains
  rw [List.flatten_singleton, List.nil_append] at ht htdrains
  refine ⟨⟨s, t, ?_, ?_, ?_⟩, readable_parse⟩
  · intro fuel hfuel
    exact ⟨hs fuel hfuel, ht fuel hfuel⟩
  · rw [hsdrains.requests, htdrains.requests]
  · rw [hsdrains.unread, htdrains.unread]

end Http
end ChatRoom
