import ChatRoom.Http.RequestStream
import ChatRoom.Http.ResponseFraming

/-!
# Streams of responses

A client that keeps its connection open receives one response behind the other and
tells them apart by their lengths.  `responseDecoder` is how it does that: the head
ends at the first blank line, and one of its lines gives the length of the body.  The
texts of plain responses come out as they have been put in.
-/

namespace ChatRoom
namespace Http

open Text Incremental

/-- A response as a client receives it. -/
structure ReceivedResponse where
  head : Bytes
  body : Bytes

/-- The bytes of a response that has been received. -/
def ReceivedResponse.text (r : ReceivedResponse) : Bytes :=
  r.head ++ (crlf ++ crlf ++ r.body)

/-- What a client receives of a response. -/
def HttpResponse.received (r : HttpResponse) : ReceivedResponse where
  head := statusLine r ++ moreLines (responseLines r)
  body := r.body

/-- The lines of the head that give the length of the body. -/
def lengthLines (bs : Bytes) : List Bytes :=
  (headerLines (headerBlock bs)).filter fun line => toLower (lineName line) = bytes "content-length"

/-- The length of the body, if one line gives it. -/
def lengthOf (bs : Bytes) : Option Nat :=
  match lengthLines bs with
  | [line] =>
      let value := trim (line.drop ((lineName line).length + 1))
      if value ≠ [] ∧ value.all isdigit then some (digitsValue value) else none
  | _ => none

/-- The verdict of a client on the front of a stream. -/
def responseVerdict (bs : Bytes) : Verdict ReceivedResponse :=
  match find (bytes "\r\n\r\n") bs with
  | none => .wait
  | some hdrEnd =>
      match lengthOf bs with
      | none => .malformed
      | some len =>
          if hdrEnd + 4 + len ≤ bs.length then
            .done (hdrEnd + 4 + len)
              { head := bs.take hdrEnd, body := (bs.drop (hdrEnd + 4)).take len }
          else
            .wait

section Decoder

variable {bs : Bytes}

/-- The lines of a complete head stay what they are when more bytes follow. -/
theorem lengthOf_append
    {hdrEnd : Nat} (hfind : find (bytes "\r\n\r\n") bs = some hdrEnd) (ys : Bytes) :
    lengthOf (bs ++ ys) = lengthOf bs := by
  have hbounds := find_blank_bounds hfind
  have hblock : headerBlock (bs ++ ys) = headerBlock bs := by
    rw [headerBlock, headerBlock, hfind, find_append hfind ys]
    dsimp only
    rw [List.take_append_of_le_length (by omega)]
  rw [lengthOf, lengthOf, lengthLines, lengthLines, hblock]

theorem responseVerdict_eq_done_iff
    {n : Nat} {r : ReceivedResponse} :
    responseVerdict bs = .done n r ↔
      ∃ hdrEnd len, find (bytes "\r\n\r\n") bs = some hdrEnd ∧ lengthOf bs = some len ∧
        n = hdrEnd + 4 + len ∧ n ≤ bs.length ∧
          r = { head := bs.take hdrEnd, body := (bs.drop (hdrEnd + 4)).take len } := by
  unfold responseVerdict
  cases hfind : find (bytes "\r\n\r\n") bs with
  | none =>
      simp
  | some hdrEnd =>
      cases hlength : lengthOf bs with
      | none =>
          simp
      | some len =>
          dsimp only
          constructor
          · intro h
            split at h
            · next hlen =>
                cases h
                exact ⟨hdrEnd, len, rfl, rfl, rfl, hlen, rfl⟩
            · cases h
          · rintro ⟨hdrEnd', len', hsome, hsome', rfl, hlen, rfl⟩
            cases hsome
            cases hsome'
            rw [if_pos hlen]

theorem responseVerdict_eq_malformed_iff :
    responseVerdict bs = .malformed ↔
      ∃ hdrEnd, find (bytes "\r\n\r\n") bs = some hdrEnd ∧ lengthOf bs = none := by
  unfold responseVerdict
  cases hfind : find (bytes "\r\n\r\n") bs with
  | none =>
      simp
  | some hdrEnd =>
      cases hlength : lengthOf bs with
      | none =>
          simp
      | some len =>
          dsimp only
          split <;> simp

theorem responseVerdict_bounds
    {n : Nat} {r : ReceivedResponse} (h : responseVerdict bs = .done n r) :
    0 < n ∧ n ≤ bs.length := by
  obtain ⟨hdrEnd, len, -, -, rfl, hlen, -⟩ := responseVerdict_eq_done_iff.mp h
  omega

theorem responseVerdict_append_of_done
    {n : Nat} {r : ReceivedResponse} (h : responseVerdict bs = .done n r) (ys : Bytes) :
    responseVerdict (bs ++ ys) = .done n r := by
  obtain ⟨hdrEnd, len, hfind, hlength, rfl, hlen, rfl⟩ := responseVerdict_eq_done_iff.mp h
  rw [responseVerdict_eq_done_iff]
  refine ⟨hdrEnd, len, find_append hfind ys, ?_, rfl, ?_, ?_⟩
  · rw [lengthOf_append hfind, hlength]
  · rw [List.length_append]
    omega
  · rw [List.take_append_of_le_length (by omega), List.drop_append_of_le_length (by omega),
      List.take_append_of_le_length]
    rw [List.length_drop]
    omega

theorem responseVerdict_append_of_malformed
    (h : responseVerdict bs = .malformed) (ys : Bytes) :
    responseVerdict (bs ++ ys) = .malformed := by
  obtain ⟨hdrEnd, hfind, hlength⟩ := responseVerdict_eq_malformed_iff.mp h
  rw [responseVerdict_eq_malformed_iff]
  exact ⟨hdrEnd, find_append hfind ys, by rw [lengthOf_append hfind, hlength]⟩

/-- The decoder of responses. -/
def responseDecoder : Decoder UInt8 ReceivedResponse where
  decode := responseVerdict
  done_bounds := responseVerdict_bounds
  done_append := responseVerdict_append_of_done
  malformed_append := responseVerdict_append_of_malformed

end Decoder

section Texts

variable {r : HttpResponse}

theorem text_received
    (r : HttpResponse) :
    r.received.text = r.toString := by
  rw [toString_eq, ReceivedResponse.text, HttpResponse.received, List.append_assoc]

theorem find_toString
    (hr : PlainResponse r) :
    find (bytes "\r\n\r\n") r.toString = some r.received.head.length := by
  rw [toString_eq, ← List.append_assoc]
  exact find_text_end (CR_notMem_statusLine hr)
    (fun line hline => line_of_mem_responseLines hr hline) r.body

theorem isDecimal_decimal
    (n : Nat) :
    decimal n ≠ [] ∧ (decimal n).all isdigit := by
  refine ⟨?_, ?_⟩
  · rw [decimal_eq, ne_eq, List.map_eq_nil_iff]
    exact Nat.toDigits_ne_nil
  · exact List.all_eq_true.mpr fun c hc => isdigit_of_mem_decimal hc

/-- What the length line gives is the length of the body. -/
theorem lengthOf_toString
    (hr : PlainResponse r) :
    lengthOf r.toString = some r.body.length := by
  have hlines : lengthLines r.toString = [lengthLine r] := by
    rw [lengthLines, headerLines_toString hr]
    exact filter_length hr
  have hvalue : trim ((lengthLine r).drop ((lineName (lengthLine r)).length + 1)) =
      decimal r.body.length := by
    have hdrop : (lengthLine r).drop ((bytes "Content-Length").length + 1) =
        SP :: decimal r.body.length := by
      rfl
    rw [lineName_lengthLine, hdrop, trim_cons (by decide)]
    exact (headerValue_decimal r.body.length).trimmed
  rw [lengthOf, hlines]
  dsimp only
  rw [hvalue, if_pos (isDecimal_decimal _), digitsValue_decimal]

/-- A plain response is received as it has been written, whatever follows. -/
theorem decode_text
    (hr : PlainResponse r) (ys : Bytes) :
    responseDecoder.decode (r.received.text ++ ys) = .done r.received.text.length r.received := by
  have hfind := find_toString hr
  have hlength := lengthOf_toString hr
  rw [← text_received] at hfind hlength
  have hsize : r.received.text.length = r.received.head.length + 4 + r.body.length := by
    simp [ReceivedResponse.text, HttpResponse.received, crlf]
    omega
  refine responseVerdict_append_of_done (responseVerdict_eq_done_iff.mpr ?_) ys
  refine ⟨r.received.head.length, r.body.length, hfind, hlength, hsize, le_rfl, ?_⟩
  have htake : r.received.text.take r.received.head.length = r.received.head :=
    List.take_left
  have hdrop : r.received.text.drop (r.received.head.length + 4) = r.body := by
    rw [ReceivedResponse.text, ← List.drop_drop, List.drop_left]
    rfl
  rw [htake, hdrop, List.take_length]
  rfl

/-- A front of the texts of plain responses is received as a front of the responses, and
nothing in it is malformed. -/
theorem drain_responses
    {responses : List HttpResponse} (hplain : ∀ r ∈ responses, PlainResponse r) {bs : Bytes}
    (hbs : bs <+: responses.flatMap HttpResponse.toString) :
    (responseDecoder.drain bs).items <+: responses.map HttpResponse.received ∧
      (responseDecoder.drain bs).failed = false ∧
        ∀ front, front <+: responses → front.flatMap HttpResponse.toString <+: bs →
          front.map HttpResponse.received <+: (responseDecoder.drain bs).items := by
  have htexts (rs : List HttpResponse) :
      (rs.map HttpResponse.received).flatMap ReceivedResponse.text =
        rs.flatMap HttpResponse.toString := by
    rw [List.flatMap_map]
    simp only [text_received]
  have hencode : ∀ a ∈ responses.map HttpResponse.received, ∀ ys,
      responseDecoder.decode (a.text ++ ys) = .done a.text.length a := by
    intro a ha ys
    obtain ⟨r, hr, rfl⟩ := List.mem_map.mp ha
    exact decode_text (hplain r hr) ys
  rw [← htexts] at hbs
  obtain ⟨hitems, hok, hfronts⟩ := Decoder.drain_front hencode rfl hbs
  refine ⟨hitems, hok, ?_⟩
  intro front hfront hsent
  refine hfronts _ (hfront.map _) ?_
  rwa [htexts]

end Texts

end Http
end ChatRoom
