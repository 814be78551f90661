import ChatRoom.Http.DeclaredLength
import ChatRoom.Http.Response

/-!
# Framing of HTTP responses

A response is built by calls of its builders (`ResponseCall`) and written by
`toString`: the status line, a line for each header in the order of the hash
table, the length and the connection unless they have been set, a blank line and
the body.

Every line of the head has a first byte and no CR, an empty reason, name or
value included, so the first blank line is the one in front of the body.  The
lines under a name are then found by cutting the head up again.
-/

namespace ChatRoom
namespace Http

open Text

/-- A call of one of the builders of `HttpResponse`. -/
inductive ResponseCall where
  | status (code : Int) (reason : Bytes)
  | header (k v : Bytes)
  | contentType (mime : Bytes)
  | body (s : Bytes)
  | bodyJson (jsonStr : Bytes)
  | setKeepAlive (ka : Bool)

namespace ResponseCall

def run (r : HttpResponse) : ResponseCall → HttpResponse
  | status code reason => r.status code reason
  | header k v => r.header k v
  | contentType mime => r.contentType mime
  | body s => r.setBody s
  | bodyJson jsonStr => r.bodyJson jsonStr
  | setKeepAlive ka => r.setKeepAlive ka

/-- The header that a call sets. -/
def sets : ResponseCall → Option (Bytes × Bytes)
  | status _ _ => none
  | header k v => some (k, v)
  | contentType mime => some (bytes "Content-Type", mime)
  | body _ => none
  | bodyJson _ => some (bytes "Content-Type", bytes "application/json")
  | setKeepAlive _ => none

theorem headers_run
    (r : HttpResponse) (c : ResponseCall) :
    (c.run r).headers =
      match c.sets with
      | none => r.headers
      | some e => r.headers.insert e.1 e.2 := by
  cases c <;> rfl

end ResponseCall

/-- The two constructors: with a status code and without one. -/
def construct : Option Int → HttpResponse
  | none => .new
  | some code => .ofCode code

/-- A response after some calls. -/
def build (start : Option Int) (calls : List ResponseCall) : HttpResponse :=
  calls.foldl ResponseCall.run (construct start)

/-- The value that the last call for a header gave it. -/
def lastSet (k : Bytes) (calls : List ResponseCall) : Option Bytes :=
  ((calls.filterMap ResponseCall.sets).filterMap
    fun e => if e.1 = k then some e.2 else none).getLast?

/-- What stands in front of the first colon. -/
def lineName (line : Bytes) : Bytes :=
  line.takeWhile (· ≠ 0x3A)

/-- What stands behind the first blank line. -/
def bodyOf (text : Bytes) : Option Bytes :=
  (find (bytes "\r\n\r\n") text).map fun hdrEnd => text.drop (hdrEnd + 4)

/-- A response whose head can be cut up again. -/
structure PlainResponse (r : HttpResponse) : Prop where
  reason_plain : ∀ c ∈ r.reason, c ≠ CR ∧ c ≠ LF
  names_plain : ∀ e ∈ r.headers.entries, ∀ c ∈ e.1, c ≠ 0x3A ∧ c ≠ CR ∧ c ≠ LF
  values_plain : ∀ e ∈ r.headers.entries, ∀ c ∈ e.2, c ≠ CR ∧ c ≠ LF
  not_length : ∀ e ∈ r.headers.entries, toLower e.1 ≠ bytes "content-length"
  one_connection : ∀ e ∈ r.headers.entries, ∀ e' ∈ r.headers.entries,
    toLower e.1 = bytes "connection" → toLower e'.1 = bytes "connection" → e.1 = e'.1

section Build

theorem headers_foldl_run
    (calls : List ResponseCall) (r : HttpResponse) :
    (calls.foldl ResponseCall.run r).headers =
      (calls.filterMap ResponseCall.sets).foldl (fun table e => table.insert e.1 e.2)
        r.headers := by
  induction calls generalizing r with
  | nil =>
      rfl
  | cons c calls ih =>
      rw [List.foldl_cons, ih, ResponseCall.headers_run]
      cases hset : c.sets with
      | none =>
          rw [List.filterMap_cons_none hset]
      | some e =>
          rw [List.filterMap_cons_some hset, List.foldl_cons]

/-- The table has under each name the value that was set last. -/
theorem lookup_build
    {k : Bytes} (start : Option Int) (calls : List ResponseCall) :
    (build start calls).headers.lookup k = lastSet k calls := by
  have hfresh : (construct start).headers = ∅ := by
    cases start <;> rfl
  rw [build, headers_foldl_run, lookup_foldl_insert, hfresh, AList.lookup_empty, Option.or_none,
    lastSet]

end Build

section Lines

variable (r : HttpResponse)

def statusLine : Bytes :=
  bytes "HTTP/1.1 " ++ bytes (ToString.toString r.statusCode) ++ bytes " " ++ r.reason

def headerText (e : Sigma fun _ : Bytes => Bytes) : Bytes :=
  e.1 ++ bytes ":" ++ e.2

def lengthLine : Bytes :=
  bytes "Content-Length: " ++ decimal r.body.length

def connectionLine : Bytes :=
  bytes "Connection: " ++ bytes (if r.keepAlive then "keep-alive" else "close")

/-- The lines between the status line and the blank line. -/
def responseLines : List Bytes :=
  r.headers.entries.map headerText ++
    (if r.hasHeader (bytes "content-length") then [] else [lengthLine r]) ++
    (if r.hasHeader (bytes "connection") then [] else [connectionLine r])

/-- The ends of the lines, read from the other side. -/
theorem crlf_flatMap
    (lines : List Bytes) :
    crlf ++ lines.flatMap (· ++ crlf) = moreLines lines ++ crlf := by
  induction lines with
  | nil =>
      simp [moreLines]
  | cons line lines ih =>
      have hcons : moreLines (line :: lines) = crlf ++ (line ++ moreLines lines) := by
        simp [moreLines]
      rw [hcons, List.flatMap_cons, List.append_assoc, ih]
      simp

theorem toString_eq :
    r.toString =
      statusLine r ++ (moreLines (responseLines r) ++ (crlf ++ crlf ++ r.body)) := by
  have hends := crlf_flatMap (responseLines r)
  calc r.toString
      = statusLine r ++ (crlf ++ (responseLines r).flatMap (· ++ crlf) ++ (crlf ++ r.body)) := by
        unfold HttpResponse.toString responseLines statusLine
        simp only [bytes_crlf, List.flatMap_append, List.flatMap_map, List.append_assoc]
        split <;> split <;> simp [headerText, lengthLine, connectionLine]
    _ = statusLine r ++ (moreLines (responseLines r) ++ (crlf ++ crlf ++ r.body)) := by
        rw [hends]
        simp only [List.append_assoc]

end Lines

section Head

variable {r : HttpResponse}

/-- A status code is printed as a sign and digits. -/
theorem CR_notMem_statusCode
    (code : Int) :
    CR ∉ bytes (ToString.toString code) := by
  have hdecimal : ∀ n : Nat, CR ∉ decimal n := by
    intro n hmem
    exact absurd (isdigit_of_mem_decimal hmem) (by decide)
  cases code with
  | ofNat n =>
      exact hdecimal n
  | negSucc n =>
      have hsign : bytes (ToString.toString (Int.negSucc n)) = bytes "-" ++ decimal (n + 1) :=
        bytes_append "-" _
      rw [hsign, List.mem_append, not_or]
      exact ⟨by decide, hdecimal (n + 1)⟩

theorem CR_notMem_statusLine
    (hr : PlainResponse r) :
    CR ∉ statusLine r := by
  have hreason : CR ∉ r.reason := fun hmem => (hr.reason_plain CR hmem).1 rfl
  simp only [statusLine, List.mem_append, not_or]
  exact ⟨⟨⟨by decide, CR_notMem_statusCode r.statusCode⟩, by decide⟩, hreason⟩

theorem line_headerText
    (hr : PlainResponse r) {e : Sigma fun _ : Bytes => Bytes} (he : e ∈ r.headers.entries) :
    Line (headerText e) where
  nonempty := by
    have hcolon : bytes ":" ≠ [] := by
      decide
    simp [headerText, hcolon]
  plain := by
    have hname : CR ∉ e.1 := fun hmem => (hr.names_plain e he CR hmem).2.1 rfl
    have hvalue : CR ∉ e.2 := fun hmem => (hr.values_plain e he CR hmem).1 rfl
    have hcolon : CR ∉ bytes ":" := by
      decide
    simp [headerText, hname, hvalue, hcolon]

theorem line_lengthLine :
    Line (lengthLine r) where
  nonempty := by
    have hname : bytes "Content-Length: " ≠ [] := by
      decide
    simp [lengthLine, hname]
  plain := by
    have hname : CR ∉ bytes "Content-Length: " := by
      decide
    have hlength : CR ∉ decimal r.body.length := by
      intro hmem
      exact absurd (isdigit_of_mem_decimal hmem) (by decide)
    simp [lengthLine, hname, hlength]

theorem line_connectionLine :
    Line (connectionLine r) := by
  unfold connectionLine
  cases r.keepAlive with
  | false =>
      exact ⟨by decide, by decide⟩
  | true =>
      exact ⟨by decide, by decide⟩

theorem line_of_mem_responseLines
    (hr : PlainResponse r) {line : Bytes} (hline : line ∈ responseLines r) :
    Line line := by
  rcases List.mem_append.mp hline with hline | hline
  · rcases List.mem_append.mp hline with hline | hline
    · obtain ⟨e, he, rfl⟩ := List.mem_map.mp hline
      exact line_headerText hr he
    · split at hline
      · cases hline
      · rw [List.mem_singleton.mp hline]
        exact line_lengthLine
  · split at hline
    · cases hline
    · rw [List.mem_singleton.mp hline]
      exact line_connectionLine

/-- No header of a plain response is the length. -/
theorem hasHeader_length
    (hr : PlainResponse r) :
    r.hasHeader (bytes "content-length") = false := by
  simp only [HttpResponse.hasHeader, AList.keys, List.keys, List.any_map, List.any_eq_false,
    Function.comp_apply, decide_eq_true_eq]
  exact hr.not_length

/-- Behind the first blank line stands the body. -/
theorem bodyOf_toString
    (hr : PlainResponse r) :
    bodyOf r.toString = some r.body := by
  have hfind := find_text_end (CR_notMem_statusLine hr)
    (fun line hline => line_of_mem_responseLines hr hline) r.body
  rw [toString_eq, ← List.append_assoc, bodyOf, hfind, Option.map_some, ← List.drop_drop,
    List.drop_left]
  rfl

/-- The lines of the head are those that `toString` wrote. -/
theorem headerLines_toString
    (hr : PlainResponse r) :
    headerLines (headerBlock r.toString) = responseLines r := by
  have hall : ∀ line ∈ responseLines r, Line line :=
    fun line hline => line_of_mem_responseLines hr hline
  have hfind := find_text_end (CR_notMem_statusLine hr) hall r.body
  rw [toString_eq, ← List.append_assoc, headerBlock, hfind]
  dsimp only
  rw [List.take_left]
  cases hlines : responseLines r with
  | nil =>
      -- the length line is always there
      have hlength : lengthLine r ∈ responseLines r := by
        simp [responseLines, hasHeader_length hr]
      rw [hlines] at hlength
      cases hlength
  | cons line lines =>
      rw [hlines] at hall
      have hhead : statusLine r ++ moreLines (line :: lines) =
          statusLine r ++ (crlf ++ (line ++ moreLines lines)) := by
        simp [moreLines]
      have hend : find crlf (statusLine r ++ (crlf ++ (line ++ moreLines lines))) =
          some (statusLine r).length :=
        find_behind (CR_notMem_statusLine hr) _
      have hdrop :
          (statusLine r ++ (crlf ++ (line ++ moreLines lines))).drop ((statusLine r).length + 2) =
            line ++ moreLines lines := by
        rw [← List.drop_drop, List.drop_left]
        rfl
      rw [hhead, bytes_crlf, hend]
      dsimp only
      rw [hdrop]
      exact headerLinesFrom_lines hall (le_refl _)

end Head

section Names

variable {r : HttpResponse}

theorem lineName_append
    {name : Bytes} (hname : (0x3A : UInt8) ∉ name) (rest : Bytes) :
    lineName (name ++ 0x3A :: rest) = name := by
  have hall : ∀ c ∈ name, decide (c ≠ 0x3A) = true := by
    intro c hc
    rw [decide_eq_true_eq]
    rintro rfl
    exact hname hc
  rw [lineName, List.takeWhile_append_of_pos hall]
  simp

theorem lineName_headerText
    (hr : PlainResponse r) {e : Sigma fun _ : Bytes => Bytes} (he : e ∈ r.headers.entries) :
    lineName (headerText e) = e.1 := by
  have hcolon : bytes ":" = [0x3A] := by
    decide
  rw [headerText, hcolon, List.append_assoc]
  exact lineName_append (fun hmem => (hr.names_plain e he _ hmem).1 rfl) e.2

theorem lineName_lengthLine :
    lineName (lengthLine r) = bytes "Content-Length" := by
  have hname : bytes "Content-Length: " = bytes "Content-Length" ++ [0x3A, SP] := by
    decide
  rw [lengthLine, hname, List.append_assoc]
  exact lineName_append (by decide) _

theorem lineName_connectionLine :
    lineName (connectionLine r) = bytes "Connection" := by
  have hname : bytes "Connection: " = bytes "Connection" ++ [0x3A, SP] := by
    decide
  rw [connectionLine, hname, List.append_assoc]
  exact lineName_append (by decide) _

/-- A table has one entry under a name. -/
theorem filter_key
    {entries : List (Sigma fun _ : Bytes => Bytes)} (hdistinct : entries.NodupKeys)
    {e : Sigma fun _ : Bytes => Bytes} (he : e ∈ entries) :
    entries.filter (fun e' => e'.1 = e.1) = [e] := by
  induction entries with
  | nil =>
      cases he
  | cons f entries ih =>
      rw [List.nodupKeys_cons] at hdistinct
      obtain ⟨hfresh, hdistinct⟩ := hdistinct
      rcases List.mem_cons.mp he with rfl | he
      · have hrest : entries.filter (fun e' => e'.1 = e.1) = [] := by
          rw [List.filter_eq_nil_iff]
          intro e' he' hsame
          apply hfresh
          rw [← of_decide_eq_true hsame]
          exact List.mem_keys_of_mem he'
        rw [List.filter_cons_of_pos (by simp), hrest]
      · have hother : f.1 ≠ e.1 := by
          intro hsame
          apply hfresh
          rw [hsame]
          exact List.mem_keys_of_mem he
        rw [List.filter_cons_of_neg (by simpa using hother), ih hdistinct he]

/-- The lines that satisfy a test on their names. -/
theorem filter_responseLines
    (hr : PlainResponse r) (test : Bytes → Bool) :
    (responseLines r).filter (fun line => test (lineName line)) =
      (r.headers.entries.filter fun e => test e.1).map headerText ++
        (if test (bytes "Content-Length") then [lengthLine r] else []) ++
        (if r.hasHeader (bytes "connection") then [] else
          if test (bytes "Connection") then [connectionLine r] else []) := by
  have hentries : (r.headers.entries.map headerText).filter (fun line => test (lineName line)) =
      (r.headers.entries.filter fun e => test e.1).map headerText := by
    rw [List.filter_map]
    congr 1
    refine List.filter_congr fun e he => ?_
    rw [Function.comp_apply, lineName_headerText hr he]
  rw [responseLines, hasHeader_length hr, List.filter_append, List.filter_append, hentries]
  congr 1
  · congr 1
    rw [if_neg (by simp), List.filter_singleton, lineName_lengthLine]
    split <;> simp_all
  · split
    · rfl
    · rw [List.filter_singleton, lineName_connectionLine]
      split <;> simp_all

/-- There is one length line, and it gives the size of the body. -/
theorem filter_length
    (hr : PlainResponse r) :
    (responseLines r).filter (fun line => toLower (lineName line) = bytes "content-length") =
      [lengthLine r] := by
  have hentries :
      r.headers.entries.filter (fun e => toLower e.1 = bytes "content-length") = [] := by
    rw [List.filter_eq_nil_iff]
    intro e he hname
    exact hr.not_length e he (of_decide_eq_true hname)
  have hconnection : toLower (bytes "Connection") ≠ bytes "content-length" := by
    decide
  rw [filter_responseLines hr (fun name => toLower name = bytes "content-length"), hentries]
  simp [toLower_contentLength, hconnection]

theorem hasHeader_iff
    {name : Bytes} :
    r.hasHeader name = true ↔ ∃ e ∈ r.headers.entries, toLower e.1 = name := by
  simp [HttpResponse.hasHeader, AList.keys, List.keys]

/-- There is one connection line, set by a header or not. -/
theorem length_filter_connection
    (hr : PlainResponse r) :
    ((responseLines r).filter
      fun line => toLower (lineName line) = bytes "connection").length = 1 := by
  have hlength : toLower (bytes "Content-Length") ≠ bytes "connection" := by
    decide
  have hconnection : toLower (bytes "Connection") = bytes "connection" := by
    decide
  rw [filter_responseLines hr (fun name => toLower name = bytes "connection")]
  cases hhas : r.hasHeader (bytes "connection") with
  | true =>
      obtain ⟨e, he, hname⟩ := hasHeader_iff.mp hhas
      have hsame : r.headers.entries.filter (fun e => toLower e.1 = bytes "connection") =
          r.headers.entries.filter (fun e' => e'.1 = e.1) := by
        refine List.filter_congr fun e' he' => decide_eq_decide.mpr ⟨?_, ?_⟩
        · exact fun hname' => hr.one_connection e' he' e he hname' hname
        · rintro hkey
          rw [hkey, hname]
      rw [hsame, filter_key r.headers.nodupKeys he]
      simp [hlength]
  | false =>
      have hentries :
          r.headers.entries.filter (fun e => toLower e.1 = bytes "connection") = [] := by
        rw [List.filter_eq_nil_iff]
        intro e he hname
        have hhas' := hasHeader_iff.mpr ⟨e, he, of_decide_eq_true hname⟩
        rw [hhas] at hhas'
        cases hhas'
      rw [hentries]
      simp [hlength, hconnection]

/-- A header that is set has one line. -/
theorem filter_header
    (hr : PlainResponse r) {e : Sigma fun _ : Bytes => Bytes} (he : e ∈ r.headers.entries) :
    (responseLines r).filter (fun line => lineName line = e.1) = [headerText e] := by
  have hlength : bytes "Content-Length" ≠ e.1 := by
    intro hname
    apply hr.not_length e he
    rw [← hname, toLower_contentLength]
  have hconnection : r.hasHeader (bytes "connection") = true ∨ bytes "Connection" ≠ e.1 := by
    by_cases hname : bytes "Connection" = e.1
    · refine .inl (hasHeader_iff.mpr ⟨e, he, ?_⟩)
      rw [← hname]
      decide
    · exact .inr hname
  rw [filter_responseLines hr (fun name => name = e.1), filter_key r.headers.nodupKeys he]
  rcases hconnection with hhas | hname
  · simp [hlength, hhas]
  · simp [hlength, hname]

end Names

section Framing

/-- The order of the headers does not matter. -/
theorem PlainResponse.perm
    {r : HttpResponse} (hr : PlainResponse r) {headers : AList fun _ : Bytes => Bytes}
    (horder : headers.entries.Perm r.headers.entries) :
    PlainResponse { r with headers := headers } where
  reason_plain := hr.reason_plain
  names_plain e he := hr.names_plain e (horder.mem_iff.mp he)
  values_plain e he := hr.values_plain e (horder.mem_iff.mp he)
  not_length e he := hr.not_length e (horder.mem_iff.mp he)
  one_connection e he e' he' :=
    hr.one_connection e (horder.mem_iff.mp he) e' (horder.mem_iff.mp he')

/-- A header set twice, one without a name and a value, the connection, and a body with a
blank line. -/
def sampleCalls : List ResponseCall :=
  [.header (bytes "X-Trace") (bytes "1"), .bodyJson (bytes "\x7b\x7d"), .header [] [],
    .header (bytes "X-Trace") (bytes "2"), .header (bytes "CONNECTION") (bytes "close"),
    .status 404 [], .setKeepAlive true, .body (bytes "a\r\n\r\nb")]

/-- Its headers in another order. -/
def sampleOrder : AList fun _ : Bytes => Bytes :=
  (((AList.insert (bytes "CONNECTION") (bytes "close") ∅).insert (bytes "X-Trace")
    (bytes "2")).insert [] []).insert (bytes "Content-Type") (bytes "application/json")

end Framing

end Http
end ChatRoom
