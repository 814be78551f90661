import ChatRoom.Http.RequestStream

/-!
# Round trip of HTTP requests

A request is written as a request line, header lines and a body, with the size
of the body under `Content-Length` anywhere among the headers (`render`).
`HttpRequest::parse` takes it off the front of a buffer and leaves what follows,
whatever the body and the bytes behind it contain.

The lines of the head are not empty and contain no CR, so the first blank line
is the one that ends the head (`find_head_end`) and the header loop sees one
line a turn (`parseHeadersFrom_lines`).
-/

namespace ChatRoom
namespace Http

open Text

def CR : UInt8 := 0x0D
def LF : UInt8 := 0x0A
def SP : UInt8 := 0x20

/-- `"\r\n"` -/
def crlf : Bytes :=
  [CR, LF]

theorem bytes_crlf :
    bytes "\r\n" = crlf := by
  decide

theorem bytes_crlfcrlf :
    bytes "\r\n\r\n" = crlf ++ crlf := by
  decide

theorem toLower_contentLength :
    toLower (bytes "Content-Length") = bytes "content-length" := by
  decide

/-- `trim` leaves the text as it is. -/
def Trimmed (s : Bytes) : Prop :=
  trim s = s

/-- The name of a header that a client may send. -/
structure HeaderName (name : Bytes) : Prop where
  nonempty : name ≠ []
  trimmed : Trimmed name
  plain : ∀ c ∈ name, c ≠ 0x3A ∧ c ≠ CR ∧ c ≠ LF

/-- The value of a header that a client may send. -/
structure HeaderValue (value : Bytes) : Prop where
  trimmed : Trimmed value
  plain : ∀ c ∈ value, c ≠ CR ∧ c ≠ LF

/-- A request as a client writes it. -/
structure RequestText where
  method : Bytes
  path : Bytes
  query : Bytes
  version : Bytes
  headers : List (Bytes × Bytes)
  /-- how many headers stand before `Content-Length` -/
  lengthAt : Nat
  body : Bytes
  method_plain : ∀ c ∈ method, c ≠ SP ∧ c ≠ CR ∧ c ≠ LF
  path_nonempty : path ≠ []
  path_plain : ∀ c ∈ path, c ≠ SP ∧ c ≠ 0x3F ∧ c ≠ CR ∧ c ≠ LF
  query_plain : ∀ c ∈ query, c ≠ SP ∧ c ≠ CR ∧ c ≠ LF
  version_known : version = bytes "HTTP/1.0" ∨ version = bytes "HTTP/1.1"
  names : ∀ e ∈ headers, HeaderName e.1
  values : ∀ e ∈ headers, HeaderValue e.2
  distinct : (headers.map fun e => toLower e.1).Nodup
  not_length : ∀ e ∈ headers, toLower e.1 ≠ bytes "content-length"
  /-- the size of a `std::string` is a `size_t` -/
  body_size : body.length < 2 ^ 64

namespace RequestText

/-- The path and, if there is one, the query behind a question mark. -/
def url (r : RequestText) : Bytes :=
  r.path ++ if r.query.isEmpty then [] else 0x3F :: r.query

def requestLine (r : RequestText) : Bytes :=
  r.method ++ (SP :: (r.url ++ (SP :: r.version)))

/-- The headers with `Content-Length` among them. -/
def allHeaders (r : RequestText) : List (Bytes × Bytes) :=
  r.headers.take r.lengthAt ++
    (bytes "Content-Length", decimal r.body.length) :: r.headers.drop r.lengthAt

end RequestText

def headerLine (e : Bytes × Bytes) : Bytes :=
  e.1 ++ (0x3A :: SP :: e.2)

/-- Lines, each behind the end of the line before it. -/
def moreLines (lines : List Bytes) : Bytes :=
  lines.flatMap fun line => crlf ++ line

/-- The lines of a header block.  Every line but the last one shortens the block, so its
length is enough `fuel`. -/
def headerLinesFrom : Nat → Bytes → List Bytes
  | 0, _ => []
  | fuel + 1, block =>
      if block.isEmpty then
        []
      else
        match find (bytes "\r\n") block with
        | none => [block]
        | some lineEnd => block.take lineEnd :: headerLinesFrom fuel (block.drop (lineEnd + 2))

def headerLines (block : Bytes) : List Bytes :=
  headerLinesFrom block.length block

/-- The bytes of a request. -/
def RequestText.render (r : RequestText) : Bytes :=
  r.requestLine ++ (moreLines (r.allHeaders.map headerLine) ++ (crlf ++ crlf ++ r.body))

section Lines

/-- A line of the head. -/
structure Line (line : Bytes) : Prop where
  nonempty : line ≠ []
  plain : CR ∉ line

/-- The search for a blank line passes over a line. -/
theorem find_blank_skip
    {line : Bytes} (hline : Line line) (s : Bytes) :
    find (crlf ++ crlf) (crlf ++ line ++ s) =
      (find (crlf ++ crlf) s).map (· + (crlf ++ line).length) := by
  have hplain : CR ∉ LF :: line := by
    intro hmem
    rcases List.mem_cons.mp hmem with heq | hmem
    · exact absurd heq (by decide)
    · exact hline.plain hmem
  have hno : (crlf ++ crlf).isPrefixOf (CR :: (LF :: line ++ s)) = false := by
    cases hl : line with
    | nil =>
        exact absurd hl hline.nonempty
    | cons b bs =>
        have hb : CR ≠ b := by
          rintro rfl
          exact hline.plain (by simp [hl])
        simp [crlf, List.isPrefixOf, hb]
  have hskip : find (crlf ++ crlf) (LF :: line ++ s) =
      (find (crlf ++ crlf) s).map (· + (LF :: line).length) :=
    find_skip hplain s
  calc find (crlf ++ crlf) (crlf ++ line ++ s)
      = (find (crlf ++ crlf) (LF :: line ++ s)).map (· + 1) := find_cons hno
    _ = (find (crlf ++ crlf) s).map (· + (crlf ++ line).length) := by
        rw [hskip, Option.map_map]
        congr 1

/-- The first blank line behind some lines is the one that ends the head. -/
theorem find_head_end
    {lines : List Bytes} (hlines : ∀ line ∈ lines, Line line) (s : Bytes) :
    find (crlf ++ crlf) (moreLines lines ++ (crlf ++ crlf ++ s)) =
      some (moreLines lines).length := by
  induction lines with
  | nil =>
      exact find_front s
  | cons line lines ih =>
      have htail := ih fun l hl => hlines l (List.mem_cons_of_mem line hl)
      have hcons : moreLines (line :: lines) = crlf ++ line ++ moreLines lines := by
        simp [moreLines]
      rw [hcons, List.append_assoc, find_blank_skip (hlines line (by simp)), htail,
        Option.map_some]
      congr 1
      simp only [List.length_append]
      omega

/-- The first blank line of a text ends its head. -/
theorem find_text_end
    {first : Bytes} (hfirst : CR ∉ first) {lines : List Bytes}
    (hlines : ∀ line ∈ lines, Line line) (s : Bytes) :
    find (bytes "\r\n\r\n") (first ++ moreLines lines ++ (crlf ++ crlf ++ s)) =
      some (first ++ moreLines lines).length := by
  have hskip : find (crlf ++ crlf) (first ++ (moreLines lines ++ (crlf ++ crlf ++ s))) =
      (find (crlf ++ crlf) (moreLines lines ++ (crlf ++ crlf ++ s))).map (· + first.length) :=
    find_skip hfirst _
  rw [bytes_crlfcrlf, List.append_assoc, hskip, find_head_end hlines, Option.map_some,
    List.length_append, Nat.add_comm]

/-- A header block is taken apart into its lines. -/
theorem headerLinesFrom_lines
    {line : Bytes} {lines : List Bytes} (hlines : ∀ l ∈ line :: lines, Line l)
    {fuel : Nat} (hfuel : (line ++ moreLines lines).length ≤ fuel) :
    headerLinesFrom fuel (line ++ moreLines lines) = line :: lines := by
  induction lines generalizing line fuel with
  | nil =>
      have hline := hlines line (by simp)
      have hpos := List.length_pos_iff.mpr hline.nonempty
      have hnone : find crlf line = none := find_eq_none hline.plain
      cases fuel with
      | zero =>
          rw [List.length_append] at hfuel
          omega
      | succ fuel =>
          simp [headerLinesFrom, moreLines, hline.nonempty, bytes_crlf, hnone]
  | cons next lines ih =>
      have hline := hlines line (by simp)
      have hpos := List.length_pos_iff.mpr hline.nonempty
      have hblock : line ++ moreLines (next :: lines) =
          line ++ (crlf ++ (next ++ moreLines lines)) := by
        simp [moreLines]
      rw [hblock] at hfuel ⊢
      have hfind : find crlf (line ++ (crlf ++ (next ++ moreLines lines))) = some line.length :=
        find_behind hline.plain _
      have htake : (line ++ (crlf ++ (next ++ moreLines lines))).take line.length = line :=
        List.take_left
      have hdrop : (line ++ (crlf ++ (next ++ moreLines lines))).drop (line.length + 2) =
          next ++ moreLines lines := by
        rw [← List.drop_drop, List.drop_left]
        rfl
      cases fuel with
      | zero =>
          rw [List.length_append] at hfuel
          omega
      | succ fuel =>
          have hshort : (next ++ moreLines lines).length ≤ fuel := by
            simp only [List.length_append] at hfuel ⊢
            omega
          have hrest := ih (fun l hl => hlines l (List.mem_cons_of_mem line hl)) hshort
          rw [headerLinesFrom, bytes_crlf, hfind, if_neg (by simp [hline.nonempty])]
          simp only [htake, hdrop, hrest]

/-- The header loop enters line after line. -/
theorem parseHeadersFrom_eq
    (fuel : Nat) (req : HttpRequest) (block : Bytes) :
    req.parseHeadersFrom fuel block =
      (headerLinesFrom fuel block).foldl HttpRequest.parseHeaderLine req := by
  induction fuel generalizing req block with
  | zero =>
      rfl
  | succ fuel ih =>
      rw [HttpRequest.parseHeadersFrom, headerLinesFrom]
      split
      · rfl
      · cases find (bytes "\r\n") block with
        | none =>
            rfl
        | some lineEnd =>
            exact ih _ _

/-- The header loop sees one line a turn. -/
theorem parseHeadersFrom_lines
    {line : Bytes} {lines : List Bytes} (hlines : ∀ l ∈ line :: lines, Line l)
    {fuel : Nat} (hfuel : (line ++ moreLines lines).length ≤ fuel) (req : HttpRequest) :
    req.parseHeadersFrom fuel (line ++ moreLines lines) =
      (line :: lines).foldl HttpRequest.parseHeaderLine req := by
  rw [parseHeadersFrom_eq, headerLinesFrom_lines hlines hfuel]

end Lines

section Headers

/-- A header line enters its header under the lower-cased name. -/
theorem parseHeaderLine_headerLine
    {e : Bytes × Bytes} (hname : HeaderName e.1) (hvalue : HeaderValue e.2)
    (req : HttpRequest) :
    req.parseHeaderLine (headerLine e) =
      { req with headers := req.headers.insert (toLower e.1) e.2 } := by
  have hcolon : (0x3A : UInt8) ∉ e.1 := fun hmem => (hname.plain _ hmem).1 rfl
  have hfind : find (bytes ":") (headerLine e) = some e.1.length :=
    find_behind hcolon (SP :: e.2)
  have htake : (headerLine e).take e.1.length = e.1 := List.take_left
  have hblank : isBlank SP = true := by
    decide
  have hdrop : (headerLine e).drop (e.1.length + 1) = SP :: e.2 := by
    rw [headerLine, ← List.drop_drop, List.drop_left]
    rfl
  rw [HttpRequest.parseHeaderLine, hfind]
  dsimp only
  rw [htake, hdrop, hname.trimmed, trim_cons hblank, hvalue.trimmed]

/-- A header line is a line of the head. -/
theorem line_headerLine
    {e : Bytes × Bytes} (hname : HeaderName e.1) (hvalue : HeaderValue e.2) :
    Line (headerLine e) where
  nonempty := by
    simp [headerLine]
  plain := by
    intro hmem
    rcases List.mem_append.mp hmem with hmem | hmem
    · exact (hname.plain _ hmem).2.1 rfl
    · rcases List.mem_cons.mp hmem with heq | hmem
      · exact absurd heq (by decide)
      · rcases List.mem_cons.mp hmem with heq | hmem
        · exact absurd heq (by decide)
        · exact (hvalue.plain _ hmem).1 rfl

/-- The header table after some headers have been entered. -/
def enterHeaders (table : AList fun _ : Bytes => Bytes) (entries : List (Bytes × Bytes)) :
    AList fun _ : Bytes => Bytes :=
  entries.foldl (fun table e => table.insert (toLower e.1) e.2) table

theorem parseHeaderLine_foldl
    {entries : List (Bytes × Bytes)}
    (hentries : ∀ e ∈ entries, HeaderName e.1 ∧ HeaderValue e.2) (req : HttpRequest) :
    (entries.map headerLine).foldl HttpRequest.parseHeaderLine req =
      { req with headers := enterHeaders req.headers entries } := by
  induction entries generalizing req with
  | nil =>
      rfl
  | cons e entries ih =>
      obtain ⟨hname, hvalue⟩ := hentries e (by simp)
      rw [List.map_cons, List.foldl_cons, parseHeaderLine_headerLine hname hvalue,
        ih fun f hf => hentries f (List.mem_cons_of_mem e hf)]
      rfl

/-- Headers with other names do not change what is found under a name. -/
theorem lookup_enterHeaders_of_notMem
    {entries : List (Bytes × Bytes)} {k : Bytes}
    (hk : k ∉ entries.map fun e => toLower e.1) (table : AList fun _ : Bytes => Bytes) :
    (enterHeaders table entries).lookup k = table.lookup k := by
  induction entries generalizing table with
  | nil =>
      rfl
  | cons e entries ih =>
      rw [List.map_cons, List.mem_cons, not_or] at hk
      calc (enterHeaders table (e :: entries)).lookup k
          = (table.insert (toLower e.1) e.2).lookup k := ih hk.2 _
        _ = table.lookup k := AList.lookup_insert_ne hk.1

/-- With distinct names every header is found under its own. -/
theorem lookup_enterHeaders
    {entries : List (Bytes × Bytes)} (hdistinct : (entries.map fun e => toLower e.1).Nodup)
    {e : Bytes × Bytes} (he : e ∈ entries) (table : AList fun _ : Bytes => Bytes) :
    (enterHeaders table entries).lookup (toLower e.1) = some e.2 := by
  induction entries generalizing table with
  | nil =>
      cases he
  | cons f entries ih =>
      rw [List.map_cons, List.nodup_cons] at hdistinct
      rcases List.mem_cons.mp he with rfl | he
      · calc (enterHeaders table (e :: entries)).lookup (toLower e.1)
            = (table.insert (toLower e.1) e.2).lookup (toLower e.1) :=
              lookup_enterHeaders_of_notMem hdistinct.1 _
          _ = some e.2 := AList.lookup_insert table
      · exact ih hdistinct.2 he _

end Headers

section Rendered

theorem headerName_contentLength :
    HeaderName (bytes "Content-Length") where
  nonempty := by
    decide
  trimmed := by
    rw [Trimmed]
    decide
  plain := by
    decide +kernel

theorem headerValue_decimal
    (n : Nat) :
    HeaderValue (decimal n) where
  trimmed := by
    apply trim_eq_self
    intro c hc
    have hrange := toNat_of_isdigit (isdigit_of_mem_decimal hc)
    simp only [isBlank, decide_eq_false_iff_not]
    rintro (rfl | rfl | rfl | rfl) <;> exact absurd hrange.1 (by decide)
  plain := by
    intro c hc
    have hrange := toNat_of_isdigit (isdigit_of_mem_decimal hc)
    constructor
    · rintro rfl
      exact absurd hrange.1 (by decide)
    · rintro rfl
      exact absurd hrange.1 (by decide)

variable (r : RequestText)

theorem allHeaders_perm :
    r.allHeaders.Perm ((bytes "Content-Length", decimal r.body.length) :: r.headers) := by
  have h : r.allHeaders.Perm ((bytes "Content-Length", decimal r.body.length) ::
      (r.headers.take r.lengthAt ++ r.headers.drop r.lengthAt)) :=
    List.perm_middle
  rwa [List.take_append_drop] at h

theorem allHeaders_wellFormed :
    ∀ e ∈ r.allHeaders, HeaderName e.1 ∧ HeaderValue e.2 := by
  intro e he
  rcases List.mem_cons.mp ((allHeaders_perm r).mem_iff.mp he) with rfl | he
  · exact ⟨headerName_contentLength, headerValue_decimal _⟩
  · exact ⟨r.names e he, r.values e he⟩

theorem allHeaders_distinct :
    (r.allHeaders.map fun e => toLower e.1).Nodup := by
  rw [((allHeaders_perm r).map _).nodup_iff, List.map_cons, List.nodup_cons]
  refine ⟨?_, r.distinct⟩
  intro hmem
  obtain ⟨e, he, heq⟩ := List.mem_map.mp hmem
  exact r.not_length e he (heq.trans toLower_contentLength)

theorem url_plain :
    ∀ c ∈ r.url, c ≠ SP ∧ c ≠ CR := by
  intro c hc
  rcases List.mem_append.mp hc with hc | hc
  · have h := r.path_plain c hc
    exact ⟨h.1, h.2.2.1⟩
  · split at hc
    · cases hc
    · rcases List.mem_cons.mp hc with rfl | hc
      · decide
      · have h := r.query_plain c hc
        exact ⟨h.1, h.2.1⟩

theorem CR_notMem_requestLine :
    CR ∉ r.requestLine := by
  have hversion : CR ∉ r.version := by
    rcases r.version_known with h | h <;> rw [h] <;> decide
  intro hmem
  rcases List.mem_append.mp hmem with hmem | hmem
  · exact (r.method_plain _ hmem).2.1 rfl
  · rcases List.mem_cons.mp hmem with heq | hmem
    · exact absurd heq (by decide)
    · rcases List.mem_append.mp hmem with hmem | hmem
      · exact (url_plain r _ hmem).2 rfl
      · rcases List.mem_cons.mp hmem with heq | hmem
        · exact absurd heq (by decide)
        · exact hversion hmem

/-- The request line is taken apart at its two blanks and at the question mark. -/
theorem parseRequestLine_requestLine
    (req : HttpRequest) :
    req.parseRequestLine r.requestLine =
      (true,
        { req with
          method := r.method
          path := r.path
          query := r.query
          version := r.version }) := by
  have hsp1 : find (bytes " ") r.requestLine = some r.method.length :=
    find_behind (fun hmem => (r.method_plain _ hmem).1 rfl) (r.url ++ (SP :: r.version))
  have hdrop1 : r.requestLine.drop (r.method.length + 1) = r.url ++ (SP :: r.version) := by
    rw [RequestText.requestLine, ← List.drop_drop, List.drop_left]
    rfl
  have hsp2 : findFrom (bytes " ") r.requestLine (r.method.length + 1) =
      some (r.url.length + (r.method.length + 1)) := by
    have h : find (bytes " ") (r.url ++ (SP :: r.version)) = some r.url.length :=
      find_behind (fun hmem => (url_plain r _ hmem).1 rfl) r.version
    rw [findFrom, hdrop1, h, Option.map_some]
  have hmethod : substr r.requestLine 0 r.method.length = r.method := by
    rw [substr, List.drop_zero, RequestText.requestLine, List.take_left]
  have hurl : substr r.requestLine (r.method.length + 1)
      (r.url.length + (r.method.length + 1) - r.method.length - 1) = r.url := by
    have hwidth : r.url.length + (r.method.length + 1) - r.method.length - 1 =
        r.url.length := by
      omega
    rw [substr, hdrop1, hwidth, List.take_left]
  have hversion : r.requestLine.drop (r.url.length + (r.method.length + 1) + 1) =
      r.version := by
    have hwidth : r.url.length + (r.method.length + 1) + 1 =
        r.method.length + 1 + (r.url.length + 1) := by
      omega
    rw [hwidth, ← List.drop_drop, hdrop1, ← List.drop_drop, List.drop_left]
    rfl
  have hknown : ¬ (r.version ≠ bytes "HTTP/1.1" ∧ r.version ≠ bytes "HTTP/1.0") := by
    rintro ⟨h11, h10⟩
    rcases r.version_known with h | h
    · exact h10 h
    · exact h11 h
  have hmark : (0x3F : UInt8) ∉ r.path := fun hmem => (r.path_plain _ hmem).2.1 rfl
  simp only [HttpRequest.parseRequestLine, hsp1, hsp2, hmethod, hurl, hversion,
    if_neg hknown]
  by_cases hquery : r.query = []
  · have hplain : r.url = r.path := by
      simp [RequestText.url, hquery]
    have hfind : find (bytes "?") r.url = none := by
      rw [hplain]
      exact find_eq_none hmark
    rw [hfind]
    simp [hplain, hquery, r.path_nonempty]
  · have hplain : r.url = r.path ++ (0x3F :: r.query) := by
      simp [RequestText.url, hquery]
    have hfind : find (bytes "?") r.url = some r.path.length := by
      rw [hplain]
      exact find_behind hmark r.query
    have htake : r.url.take r.path.length = r.path := by
      rw [hplain, List.take_left]
    have hdrop : r.url.drop (r.path.length + 1) = r.query := by
      rw [hplain, ← List.drop_drop, List.drop_left]
      rfl
    rw [hfind]
    simp [htake, hdrop, r.path_nonempty]

end Rendered

section Parse

variable (r : RequestText) (rest : Bytes)

/-- The head of a rendered request. -/
def headOf : Bytes :=
  r.requestLine ++ moreLines (r.allHeaders.map headerLine)

theorem render_append :
    r.render ++ rest = headOf r ++ (crlf ++ crlf ++ (r.body ++ rest)) := by
  simp [RequestText.render, headOf]

theorem line_of_mem_headers :
    ∀ line ∈ r.allHeaders.map headerLine, Line line := by
  intro line hline
  obtain ⟨e, he, rfl⟩ := List.mem_map.mp hline
  obtain ⟨hname, hvalue⟩ := allHeaders_wellFormed r e he
  exact line_headerLine hname hvalue

/-- The head ends where the rendering puts the blank line. -/
theorem find_headOf :
    find (bytes "\r\n\r\n") (r.render ++ rest) = some (headOf r).length := by
  rw [render_append]
  exact find_text_end (CR_notMem_requestLine r) (line_of_mem_headers r) (r.body ++ rest)

/-- The head is taken apart into the request line and the headers. -/
theorem headOf_lines
    (req : HttpRequest) :
    find (bytes "\r\n") (headOf r) = some r.requestLine.length ∧
      (headOf r).take r.requestLine.length = r.requestLine ∧
        req.parseHeaders ((headOf r).drop (r.requestLine.length + 2)) =
          { req with headers := enterHeaders req.headers r.allHeaders } := by
  have hall := line_of_mem_headers r
  have hfold := parseHeaderLine_foldl (allHeaders_wellFormed r) req
  cases hheaders : r.allHeaders.map headerLine with
  | nil =>
      simp [RequestText.allHeaders] at hheaders
  | cons line lines =>
      rw [hheaders] at hall hfold
      have hhead : headOf r = r.requestLine ++ (crlf ++ (line ++ moreLines lines)) := by
        simp [headOf, hheaders, moreLines]
      have hdrop : (headOf r).drop (r.requestLine.length + 2) = line ++ moreLines lines := by
        rw [hhead, ← List.drop_drop, List.drop_left]
        rfl
      refine ⟨?_, ?_, ?_⟩
      · rw [hhead]
        exact find_behind (CR_notMem_requestLine r) _
      · rw [hhead, List.take_left]
      · rw [HttpRequest.parseHeaders, hdrop, parseHeadersFrom_lines hall (Nat.le_refl _), hfold]

/-- The object after `parse`. -/
def parsed (req : HttpRequest) : HttpRequest where
  ok := true
  method := r.method
  path := r.path
  query := r.query
  version := r.version
  headers := enterHeaders req.headers r.allHeaders
  body := r.body

/-- Every header is found under every spelling of its name. -/
theorem getHeader_of_enterHeaders
    {req : HttpRequest} (table : AList fun _ : Bytes => Bytes)
    (hreq : req.headers = enterHeaders table r.allHeaders)
    {e : Bytes × Bytes} (he : e ∈ r.allHeaders) {k : Bytes} (hk : toLower k = toLower e.1) :
    req.getHeader k = e.2 := by
  rw [HttpRequest.getHeader, hreq, hk, lookup_enterHeaders (allHeaders_distinct r) he]
  rfl

/-- The head assigns the request line and the headers. -/
theorem onHead_headOf
    (req : HttpRequest) :
    req.onHead (headOf r) =
      (true,
        { req with
          method := r.method
          path := r.path
          query := r.query
          version := r.version
          headers := enterHeaders req.headers r.allHeaders }) := by
  obtain ⟨hline, hfirst, hheaders⟩ := headOf_lines r
    { req with
      method := r.method
      path := r.path
      query := r.query
      version := r.version }
  have hlineOfHead : lineOfHead (headOf r) = r.requestLine := by
    rw [lineOfHead, hline]
    exact hfirst
  rw [HttpRequest.onHead, hlineOfHead, parseRequestLine_requestLine, hline]
  exact congrArg (Prod.mk true) hheaders

theorem parse_eq_parsed
    (req : HttpRequest) {buf : Buffer} (hbuf : buf.readable = r.render ++ rest) :
    ∃ buf', req.parse buf = (true, parsed r req, buf') ∧ buf'.readable = rest := by
  have hfind : find (bytes "\r\n\r\n") buf.readable = some (headOf r).length := by
    rw [hbuf]
    exact find_headOf r rest
  have hhead : buf.readable.take (headOf r).length = headOf r := by
    rw [hbuf, render_append, List.take_left]
  have hrest : buf.readable.drop ((headOf r).length + 4) = r.body ++ rest := by
    rw [hbuf, render_append, ← List.drop_drop, List.drop_left]
    rfl
  have hget : (HttpRequest.mk false r.method r.path r.query r.version
      (enterHeaders req.headers r.allHeaders) req.body).getHeader (bytes "Content-Length") =
        decimal r.body.length :=
    getHeader_of_enterHeaders r req.headers rfl
      ((allHeaders_perm r).mem_iff.mpr (List.mem_cons_self ..)) rfl
  have hlength : (HttpRequest.mk false r.method r.path r.query r.version
      (enterHeaders req.headers r.allHeaders) req.body).contentLength = r.body.length := by
    rw [HttpRequest.contentLength, hget, stoul_decimal r.body_size]
    rfl
  have hsize : ¬ r.body.length > (r.body ++ rest).length := by
    simp
  have hbody : (r.body ++ rest).take r.body.length = r.body := List.take_left
  have hleft : (r.body ++ rest).drop r.body.length = rest := List.drop_left
  rw [parse_of_head hfind, hhead, hrest, onHead_headOf]
  dsimp only
  rw [hlength, if_pos rfl, if_neg hsize, hbody, hleft]
  refine ⟨_, rfl, ?_⟩
  cases rest with
  | nil =>
      rw [if_neg (by simp), buf.readable_clear]
  | cons b rest =>
      rw [if_pos (by simp)]
      simp

/-- A rendered request is parsed off the front of a buffer. -/
theorem parse_render
    (req : HttpRequest) (buf : Buffer) (hbuf : buf.readable = r.render ++ rest) :
    ∃ req' buf', req.parse buf = (true, req', buf') ∧
      req'.method = r.method ∧ req'.path = r.path ∧ req'.query = r.query ∧
      req'.version = r.version ∧ req'.body = r.body ∧
      (∀ e ∈ r.headers, ∀ k, toLower k = toLower e.1 → req'.getHeader k = e.2) ∧
      buf'.readable = rest := by
  obtain ⟨buf', hparse, hleft⟩ := parse_eq_parsed r rest req hbuf
  refine ⟨parsed r req, buf', hparse, rfl, rfl, rfl, rfl, rfl, ?_, hleft⟩
  intro e he k hk
  exact getHeader_of_enterHeaders r req.headers rfl
    ((allHeaders_perm r).mem_iff.mpr (List.mem_cons_of_mem _ he)) hk

/-- A request with a query, a header and a body that contains a blank line. -/
def samplePost : RequestText where
  method := bytes "POST"
  path := bytes "/api/messages"
  query := bytes "room=a?b"
  version := bytes "HTTP/1.1"
  headers := [(bytes "X-Auth-Token", bytes "t:1")]
  lengthAt := 0
  body := bytes "a\r\n\r\nb"
  method_plain := by
    decide +kernel
  path_nonempty := by
    decide
  path_plain := by
    decide +kernel
  query_plain := by
    decide +kernel
  version_known := .inr rfl
  names := by
    intro e he
    rcases List.mem_singleton.mp he with rfl
    exact ⟨by decide, by rw [Trimmed]; decide, by decide +kernel⟩
  values := by
    intro e he
    rcases List.mem_singleton.mp he with rfl
    exact ⟨by rw [Trimmed]; decide, by decide +kernel⟩
  distinct := by
    decide
  not_length := by
    decide
  body_size := by
    decide

/-- The request is taken off the front of a buffer that goes on with another one. -/
theorem parse_render_samplePost :
    ∃ req' buf', HttpRequest.new.parse
        (Buffer.new.append (samplePost.render ++ bytes "GET / HTTP/1.1\r\n")) =
          (true, req', buf') ∧
      req'.body = bytes "a\r\n\r\nb" ∧
      req'.getHeader (bytes "x-auth-token") = bytes "t:1" ∧
      buf'.readable = bytes "GET / HTTP/1.1\r\n" := by
  obtain ⟨req', buf', hparse, -, -, -, -, hbody, hheaders, hleft⟩ :=
    parse_render samplePost (bytes "GET / HTTP/1.1\r\n") HttpRequest.new
      (Buffer.new.append (samplePost.render ++ bytes "GET / HTTP/1.1\r\n")) (by simp)
  refine ⟨req', buf', hparse, hbody, ?_, hleft⟩
  exact hheaders _ (List.mem_singleton_self _) _ (by decide)

end Parse

end Http
end ChatRoom
