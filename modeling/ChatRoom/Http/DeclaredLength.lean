import ChatRoom.Http.RoundTrip

/-!
# Declared lengths

A client declares the length of a body under `Content-Length`.  `parse` takes the
last such line of the header block, and what `stoul` makes of its value: 0 if
`stoul` throws, and the number at the front if something else follows it.  So the
body has the length that was declared iff the values are digits, denote one and
the same number, and that number is a `size_t`.
-/

namespace ChatRoom
namespace Http

open Text

/-- The name, in lower case, and the value of a header line. -/
def headerOf (line : Bytes) : Option (Bytes × Bytes) :=
  (find (bytes ":") line).map fun colon =>
    (toLower (trim (line.take colon)), trim (line.drop (colon + 1)))

/-- What stands between the request line and the blank line. -/
def headerBlock (bs : Bytes) : Bytes :=
  match find (bytes "\r\n\r\n") bs with
  | none => []
  | some hdrEnd =>
      match find (bytes "\r\n") (bs.take hdrEnd) with
      | none => []
      | some lineEnd => (bs.take hdrEnd).drop (lineEnd + 2)

/-- The values under a name, in the order of the lines. -/
def valuesOf (k : Bytes) (lines : List Bytes) : List Bytes :=
  (lines.filterMap headerOf).filterMap fun e => if e.1 = k then some e.2 else none

/-- The values of the `Content-Length` lines of a request. -/
def declaredLengths (bs : Bytes) : List Bytes :=
  valuesOf (bytes "content-length") (headerLines (headerBlock bs))

/-- A string of decimal digits. -/
def IsDecimal (v : Bytes) : Prop :=
  v ≠ [] ∧ ∀ c ∈ v, isdigit c = true

/-- The values are digits and denote one number, and it is a `size_t`. -/
def Consistent (values : List Bytes) : Prop :=
  ∀ v ∈ values, IsDecimal v ∧ digitsValue v < 2 ^ 64 ∧
    ∀ v' ∈ values, digitsValue v' = digitsValue v

section Headers

variable {k : Bytes}

theorem parseHeaderLine_eq
    (req : HttpRequest) (line : Bytes) :
    req.parseHeaderLine line =
      match headerOf line with
      | none => req
      | some e => { req with headers := req.headers.insert e.1 e.2 } := by
  unfold HttpRequest.parseHeaderLine headerOf
  cases find (bytes ":") line <;> rfl

/-- Of the values entered under a name the last one is found. -/
theorem lookup_foldl_insert
    (entries : List (Bytes × Bytes)) (table : AList fun _ : Bytes => Bytes) :
    (entries.foldl (fun table e => table.insert e.1 e.2) table).lookup k =
      (entries.filterMap fun e => if e.1 = k then some e.2 else none).getLast?.or
        (table.lookup k) := by
  induction entries generalizing table with
  | nil =>
      rfl
  | cons e entries ih =>
      rw [List.foldl_cons, ih]
      by_cases hname : e.1 = k
      · subst hname
        simp only [List.filterMap_cons, if_true, AList.lookup_insert]
        cases hrest : entries.filterMap (fun e' => if e'.1 = e.1 then some e'.2 else none) with
        | nil =>
            rfl
        | cons v vs =>
            simp [List.getLast?_cons]
      · simp [hname, AList.lookup_insert_ne (Ne.symm hname)]

theorem headers_foldl
    (lines : List Bytes) (req : HttpRequest) :
    (lines.foldl HttpRequest.parseHeaderLine req).headers =
      (lines.filterMap headerOf).foldl (fun table e => table.insert e.1 e.2) req.headers := by
  induction lines generalizing req with
  | nil =>
      rfl
  | cons line lines ih =>
      rw [List.foldl_cons, ih, parseHeaderLine_eq]
      cases hline : headerOf line with
      | none =>
          rw [List.filterMap_cons_none hline]
      | some e =>
          rw [List.filterMap_cons_some hline, List.foldl_cons]

/-- The last line with a name is the one that is found. -/
theorem lookup_foldl
    (lines : List Bytes) (req : HttpRequest) :
    (lines.foldl HttpRequest.parseHeaderLine req).headers.lookup k =
      (valuesOf k lines).getLast?.or (req.headers.lookup k) := by
  rw [headers_foldl, lookup_foldl_insert, valuesOf]

/-- The request line enters no header. -/
theorem headers_parseRequestLine
    (req : HttpRequest) (line : Bytes) :
    (req.parseRequestLine line).2.headers = req.headers := by
  unfold HttpRequest.parseRequestLine
  cases find (bytes " ") line with
  | none =>
      rfl
  | some sp1 =>
      dsimp only
      cases findFrom (bytes " ") line (sp1 + 1) with
      | none =>
          rfl
      | some sp2 =>
          dsimp only
          split
          · rfl
          · cases find (bytes "?") (substr line (sp1 + 1) (sp2 - sp1 - 1)) <;> rfl

/-- The lines behind the request line of a head. -/
def linesOfHead (head : Bytes) : List Bytes :=
  match find (bytes "\r\n") head with
  | none => []
  | some lineEnd => headerLines (head.drop (lineEnd + 2))

theorem headerLines_headerBlock
    {bs : Bytes} {hdrEnd : Nat} (hfind : find (bytes "\r\n\r\n") bs = some hdrEnd) :
    headerLines (headerBlock bs) = linesOfHead (bs.take hdrEnd) := by
  rw [headerBlock, hfind]
  dsimp only
  unfold linesOfHead
  cases find (bytes "\r\n") (bs.take hdrEnd) <;> rfl

/-- Behind a request line every line of the head is entered. -/
theorem snd_onHead
    {req : HttpRequest} {head : Bytes} (haccept : (req.onHead head).1 = true) :
    (req.onHead head).2 =
      (linesOfHead head).foldl HttpRequest.parseHeaderLine
        (req.parseRequestLine (lineOfHead head)).2 := by
  unfold HttpRequest.onHead at haccept ⊢
  cases hparse : req.parseRequestLine (lineOfHead head) with
  | mk complete req' =>
      rw [hparse] at haccept
      cases complete with
      | false =>
          cases haccept
      | true =>
          unfold linesOfHead
          cases find (bytes "\r\n") head with
          | none =>
              rfl
          | some lineEnd =>
              exact parseHeadersFrom_eq _ _ _

theorem lookup_onHead
    {req : HttpRequest} {head : Bytes} (haccept : (req.onHead head).1 = true) (k : Bytes) :
    (req.onHead head).2.headers.lookup k =
      (valuesOf k (linesOfHead head)).getLast?.or (req.headers.lookup k) := by
  rw [snd_onHead haccept, lookup_foldl, headers_parseRequestLine]

/-- The length that `parse` takes is the one that the last `Content-Length` line gives. -/
theorem contentLength_eq
    {bs : Bytes} {hdrEnd : Nat} {head : HttpRequest}
    (hfind : find (bytes "\r\n\r\n") bs = some hdrEnd)
    (hhead : parseHead (bs.take hdrEnd) = (true, head)) :
    head.contentLength = ((declaredLengths bs).getLast?.bind stoul).getD 0 := by
  have honHead : HttpRequest.new.onHead (bs.take hdrEnd) = (true, head) := by
    rw [← parseHead_eq, hhead]
  have haccept : (HttpRequest.new.onHead (bs.take hdrEnd)).1 = true := by
    rw [honHead]
  have hlookup := lookup_onHead haccept (bytes "content-length")
  have hempty : HttpRequest.new.headers.lookup (bytes "content-length") = none := rfl
  rw [honHead, hempty, Option.or_none, ← headerLines_headerBlock hfind] at hlookup
  rw [HttpRequest.contentLength, HttpRequest.getHeader, toLower_contentLength, hlookup,
    declaredLengths]
  cases (valuesOf (bytes "content-length") (headerLines (headerBlock bs))).getLast? <;> rfl

end Headers

section Body

variable {buf rest : Buffer} {req : HttpRequest}

/-- The length of the body is what `stoul` makes of the last declared length. -/
theorem body_length_eq
    (h : HttpRequest.new.parse buf = (true, req, rest)) :
    req.body.length = ((declaredLengths buf.readable).getLast?.bind stoul).getD 0 := by
  cases hverdict : requestVerdict buf.readable with
  | done n req' =>
      obtain ⟨buf', hparse, -⟩ := parse_of_done hverdict
      obtain ⟨hdrEnd, head, hfind, hhead, rfl, hlen, rfl⟩ :=
        requestVerdict_eq_done_iff.mp hverdict
      rw [h] at hparse
      cases hparse
      rw [← contentLength_eq hfind hhead, List.length_take, List.length_drop]
      omega
  | wait =>
      obtain ⟨req', buf', hparse, -⟩ := parse_of_wait hverdict
      rw [h] at hparse
      cases hparse
  | malformed =>
      exact absurd hverdict (requestVerdict_ne_malformed _)

/-- The body of a request has every length that its header lines declare iff these are
consistent. -/
theorem declared_lengths_kept_iff
    (h : HttpRequest.new.parse buf = (true, req, rest)) :
    (∀ v ∈ declaredLengths buf.readable,
        IsDecimal v ∧ req.body.length = digitsValue v) ↔
      Consistent (declaredLengths buf.readable) := by
  have hlength := body_length_eq h
  generalize declaredLengths buf.readable = values at hlength ⊢
  rcases List.eq_nil_or_concat values with rfl | ⟨front, last, rfl⟩
  · simp [Consistent]
  · rw [List.concat_eq_append, List.getLast?_append_of_ne_nil _ (by simp)] at *
    simp only [List.getLast?_singleton, Option.bind_some] at hlength
    have hsize : req.body.length < 2 ^ 64 := by
      rw [hlength]
      cases hread : stoul last with
      | none =>
          decide
      | some n =>
          exact stoul_lt hread
    constructor
    · intro hall v hv
      obtain ⟨hdecimal, hvalue⟩ := hall v hv
      refine ⟨hdecimal, by omega, ?_⟩
      intro v' hv'
      rw [← hvalue, (hall v' hv').2]
    · intro hconsistent v hv
      obtain ⟨⟨hne, hdigits⟩, hlt, hsame⟩ := hconsistent last (by simp)
      refine ⟨(hconsistent v hv).1, ?_⟩
      rw [hlength, stoul_of_digits hne hdigits hlt, hsame v hv]
      rfl

theorem exists_of_complete
    (h : (HttpRequest.new.parse buf).1 = true) :
    ∃ req rest, HttpRequest.new.parse buf = (true, req, rest) := by
  cases hparse : HttpRequest.new.parse buf with
  | mk complete result =>
      rw [hparse] at h
      obtain rfl : complete = true := h
      exact ⟨result.1, result.2, rfl⟩

/-- A body of five bytes, and the front of another request behind it. -/
def samplePost5 : Buffer :=
  Buffer.new.append (bytes "POST /x HTTP/1.1\r\nContent-Length: 5\r\n\r\nhelloGET")

theorem declared_lengths_kept_samplePost5 :
    ∃ req rest, HttpRequest.new.parse samplePost5 = (true, req, rest) ∧
      declaredLengths samplePost5.readable = [bytes "5"] ∧
        ∀ v ∈ declaredLengths samplePost5.readable,
          IsDecimal v ∧ req.body.length = digitsValue v := by
  have hcomplete : (HttpRequest.new.parse samplePost5).1 = true := by
    decide +kernel
  have hdeclared : declaredLengths samplePost5.readable = [bytes "5"] := by
    decide +kernel
  have hconsistent : Consistent (declaredLengths samplePost5.readable) := by
    have hdecimal : IsDecimal (bytes "5") := ⟨by decide, by decide +kernel⟩
    have hsize : digitsValue (bytes "5") < 2 ^ 64 := by
      decide +kernel
    rw [hdeclared]
    simp only [Consistent, List.forall_mem_singleton]
    exact ⟨hdecimal, hsize, trivial⟩
  obtain ⟨req, rest, hparse⟩ := exists_of_complete hcomplete
  exact ⟨req, rest, hparse, hdeclared, (declared_lengths_kept_iff hparse).mpr hconsistent⟩

/-- A length that `stoul` cannot read, and the body taken for the next request. -/
def smuggled : Buffer :=
  Buffer.new.append (bytes
    "POST /x HTTP/1.1\r\nContent-Length: x4\r\n\r\nGET / HTTP/1.1\r\n\r\n")

theorem smuggled_length_ignored :
    ¬ ∀ (buf rest : Buffer) (req : HttpRequest),
      HttpRequest.new.parse buf = (true, req, rest) →
        ∀ v ∈ declaredLengths buf.readable,
          IsDecimal v ∧ req.body.length = digitsValue v := by
  intro hall
  have hcomplete : (HttpRequest.new.parse smuggled).1 = true := by
    decide +kernel
  have hdeclared : bytes "x4" ∈ declaredLengths smuggled.readable := by
    decide +kernel
  obtain ⟨req, rest, hparse⟩ := exists_of_complete hcomplete
  obtain ⟨⟨-, hdigits⟩, -⟩ := hall smuggled rest req hparse _ hdeclared
  exact absurd (hdigits 0x78 (by decide)) (by decide)

end Body

end Http
end ChatRoom
