import ChatRoom.Http.DeclaredLength
import ChatRoom.Http.RequestFront

/-!
# Using a request object again

`parse` overwrites the request line and the body of the object, and clears the
query if there is none, but it only adds to the headers.  What an object answers
after earlier calls is therefore what a fresh one answers iff the request at hand
gives every header that has been left behind with a value.  Otherwise the stale
value shows, and a stale `Content-Length` decides how long the body is.
-/

namespace ChatRoom
namespace Http

open Text

/-- The object after calls of `parse` on some buffers. -/
def reused (earlier : List Buffer) : HttpRequest :=
  earlier.foldl (fun req buf => (req.parse buf).2.1) HttpRequest.new

/-- Two calls of `parse` answer alike. -/
structure SameAnswer (a b : Bool × HttpRequest × Buffer) : Prop where
  complete : a.1 = b.1
  remaining : a.2.2.readable = b.2.2.readable
  method : a.1 = true → a.2.1.method = b.2.1.method
  path : a.1 = true → a.2.1.path = b.2.1.path
  query : a.1 = true → a.2.1.query = b.2.1.query
  version : a.1 = true → a.2.1.version = b.2.1.version
  body : a.1 = true → a.2.1.body = b.2.1.body
  header : a.1 = true → ∀ name, a.2.1.getHeader name = b.2.1.getHeader name

instance (line : Bytes) : Decidable (IsRequestLine line) :=
  decidable_of_iff _ (parseRequestLine_iff HttpRequest.new line)

/-- The header lines that `parse` enters: those behind a request line. -/
def enteredLines (bs : Bytes) : List Bytes :=
  match firstLine bs with
  | none => []
  | some line => if IsRequestLine line then headerLines (headerBlock bs) else []

/-- The length that the last `Content-Length` line declares; 0 if `stoul` throws. -/
def declaredLength (bs : Bytes) : Nat :=
  ((declaredLengths bs).getLast?.bind stoul).getD 0

/-- The bytes begin with a whole request. -/
def HoldsRequest (bs : Bytes) : Prop :=
  ∃ hdrEnd line, find (bytes "\r\n\r\n") bs = some hdrEnd ∧ firstLine bs = some line ∧
    IsRequestLine line ∧ hdrEnd + 4 + declaredLength bs ≤ bs.length

/-- The value that earlier requests left under a name; it is empty if there is none. -/
def staleValue (earlier : List Bytes) (name : Bytes) : Bytes :=
  (valuesOf (toLower name) (earlier.flatMap enteredLines)).getLast?.getD []

/-- A request has a line for a header. -/
def Gives (bs name : Bytes) : Prop :=
  valuesOf (toLower name) (headerLines (headerBlock bs)) ≠ []

section Head

/-- A header line changes the headers only. -/
theorem parseHeaderLine_frame
    (req : HttpRequest) (line : Bytes) :
    req.parseHeaderLine line = { req with headers := (req.parseHeaderLine line).headers } := by
  rw [parseHeaderLine_eq]
  cases headerOf line <;> rfl

theorem foldl_parseHeaderLine_frame
    (lines : List Bytes) (req : HttpRequest) :
    lines.foldl HttpRequest.parseHeaderLine req =
      { req with headers := (lines.foldl HttpRequest.parseHeaderLine req).headers } := by
  induction lines generalizing req with
  | nil =>
      rfl
  | cons line lines ih =>
      rw [List.foldl_cons, ih, parseHeaderLine_frame]

/-- What a request line assigns does not depend on the object. -/
theorem exists_fields_of_line
    {line : Bytes} (hline : IsRequestLine line) :
    ∃ method path query version, ∀ req : HttpRequest,
      req.parseRequestLine line =
        (true,
          { req with method := method, path := path, query := query, version := version }) := by
  have haccept := (parseRequestLine_iff HttpRequest.new line).mpr hline
  unfold HttpRequest.parseRequestLine at haccept ⊢
  cases hsp1 : find (bytes " ") line with
  | none =>
      rw [hsp1] at haccept
      cases haccept
  | some sp1 =>
      rw [hsp1] at haccept
      dsimp only at haccept ⊢
      cases hsp2 : findFrom (bytes " ") line (sp1 + 1) with
      | none =>
          rw [hsp2] at haccept
          cases haccept
      | some sp2 =>
          rw [hsp2] at haccept
          dsimp only at haccept ⊢
          split at haccept
          · cases haccept
          · next hversion =>
              cases hmark : find (bytes "?") (substr line (sp1 + 1) (sp2 - sp1 - 1)) with
              | none =>
                  rw [hmark] at haccept
                  refine ⟨substr line 0 sp1, substr line (sp1 + 1) (sp2 - sp1 - 1), [],
                    line.drop (sp2 + 1), fun req => ?_⟩
                  rw [if_neg hversion]
                  exact Prod.ext haccept rfl
              | some q =>
                  rw [hmark] at haccept
                  refine ⟨substr line 0 sp1, (substr line (sp1 + 1) (sp2 - sp1 - 1)).take q,
                    (substr line (sp1 + 1) (sp2 - sp1 - 1)).drop (q + 1), line.drop (sp2 + 1),
                    fun req => ?_⟩
                  rw [if_neg hversion]
                  exact Prod.ext haccept rfl

theorem fst_onHead_iff
    (req : HttpRequest) (head : Bytes) :
    (req.onHead head).1 = true ↔ IsRequestLine (lineOfHead head) := by
  rw [fst_onHead, parseRequestLine_iff]

/-- What a head assigns does not depend on the object, its headers apart. -/
theorem onHead_fields
    {head : Bytes} (hline : IsRequestLine (lineOfHead head)) (req req' : HttpRequest) :
    (req.onHead head).2.method = (req'.onHead head).2.method ∧
      (req.onHead head).2.path = (req'.onHead head).2.path ∧
      (req.onHead head).2.query = (req'.onHead head).2.query ∧
      (req.onHead head).2.version = (req'.onHead head).2.version := by
  obtain ⟨method, path, query, version, hfields⟩ := exists_fields_of_line hline
  have hframe := foldl_parseHeaderLine_frame (linesOfHead head)
  rw [snd_onHead ((fst_onHead_iff req head).mpr hline),
    snd_onHead ((fst_onHead_iff req' head).mpr hline), hfields req, hfields req',
    hframe { req with method := method, path := path, query := query, version := version },
    hframe { req' with method := method, path := path, query := query, version := version }]
  exact ⟨rfl, rfl, rfl, rfl⟩

/-- A rejected head enters no header. -/
theorem headers_onHead
    {req : HttpRequest} {head : Bytes} (hreject : ¬ IsRequestLine (lineOfHead head)) :
    (req.onHead head).2.headers = req.headers := by
  have hflag := (parseRequestLine_iff req (lineOfHead head)).not.mpr hreject
  have hheaders := headers_parseRequestLine req (lineOfHead head)
  unfold HttpRequest.onHead
  cases hparse : req.parseRequestLine (lineOfHead head) with
  | mk complete req' =>
      rw [hparse] at hflag hheaders
      cases complete with
      | false =>
          exact hheaders
      | true =>
          exact absurd rfl hflag

end Head

section Parse

variable {hdrEnd : Nat}

theorem enteredLines_of_head
    {bs : Bytes} (hfind : find (bytes "\r\n\r\n") bs = some hdrEnd) :
    enteredLines bs =
      if IsRequestLine (lineOfHead (bs.take hdrEnd)) then
        linesOfHead (bs.take hdrEnd)
      else
        [] := by
  rw [enteredLines, firstLine_of_head hfind, headerLines_headerBlock hfind]

theorem enteredLines_of_no_head
    {bs : Bytes} (hfind : find (bytes "\r\n\r\n") bs = none) :
    enteredLines bs = [] := by
  have hblock : headerLines (headerBlock bs) = [] := by
    rw [headerBlock, hfind]
    rfl
  unfold enteredLines
  rw [hblock]
  cases firstLine bs with
  | none =>
      rfl
  | some line =>
      exact ite_self _

/-- The object behind a head, whatever the rest brings. -/
theorem headers_parse
    {buf : Buffer} (hfind : find (bytes "\r\n\r\n") buf.readable = some hdrEnd)
    (req : HttpRequest) :
    (req.parse buf).2.1.headers =
      (HttpRequest.onHead { req with ok := false } (buf.readable.take hdrEnd)).2.headers := by
  rw [parse_of_head hfind]
  dsimp only
  split
  · split <;> rfl
  · rfl

/-- A call adds the header lines behind a request line, and removes no header. -/
theorem lookup_parse
    (req : HttpRequest) (buf : Buffer) (k : Bytes) :
    (req.parse buf).2.1.headers.lookup k =
      (valuesOf k (enteredLines buf.readable)).getLast?.or (req.headers.lookup k) := by
  cases hfind : find (bytes "\r\n\r\n") buf.readable with
  | none =>
      rw [parse_of_no_head hfind, enteredLines_of_no_head hfind]
      rfl
  | some hdrEnd =>
      rw [headers_parse hfind, enteredLines_of_head hfind]
      split
      · next hline =>
          exact lookup_onHead ((fst_onHead_iff _ _).mpr hline) k
      · next hline =>
          rw [headers_onHead hline]
          rfl

theorem valuesOf_append
    (k : Bytes) (lines lines' : List Bytes) :
    valuesOf k (lines ++ lines') = valuesOf k lines ++ valuesOf k lines' := by
  simp only [valuesOf, List.filterMap_append]

/-- After some calls an object has the last value that any of them entered. -/
theorem lookup_foldl_parse
    (earlier : List Buffer) (req : HttpRequest) (k : Bytes) :
    (earlier.foldl (fun req buf => (req.parse buf).2.1) req).headers.lookup k =
      (valuesOf k ((earlier.map Buffer.readable).flatMap enteredLines)).getLast?.or
        (req.headers.lookup k) := by
  induction earlier generalizing req with
  | nil =>
      rfl
  | cons buf earlier ih =>
      rw [List.foldl_cons, ih, lookup_parse, List.map_cons, List.flatMap_cons, valuesOf_append,
        List.getLast?_append, Option.or_assoc]

theorem getHeader_reused
    (earlier : List Buffer) (name : Bytes) :
    (reused earlier).getHeader name = staleValue (earlier.map Buffer.readable) name := by
  have hempty : HttpRequest.new.headers.lookup (toLower name) = none := rfl
  rw [HttpRequest.getHeader, reused, lookup_foldl_parse, hempty, Option.or_none, staleValue]

end Parse

section Answer

variable {req : HttpRequest} {bs : Bytes} {buf fresh : Buffer} {hdrEnd : Nat}

theorem holdsRequest_iff
    (hfind : find (bytes "\r\n\r\n") bs = some hdrEnd) :
    HoldsRequest bs ↔
      IsRequestLine (lineOfHead (bs.take hdrEnd)) ∧
        hdrEnd + 4 + declaredLength bs ≤ bs.length := by
  constructor
  · rintro ⟨hdrEnd', line, hfind', hfirst, hline, hlength⟩
    rw [hfind, Option.some.injEq] at hfind'
    rw [firstLine_of_head hfind, Option.some.injEq] at hfirst
    subst hfind' hfirst
    exact ⟨hline, hlength⟩
  · rintro ⟨hline, hlength⟩
    exact ⟨hdrEnd, _, hfind, firstLine_of_head hfind, hline, hlength⟩

/-- On a fresh object the length is the one that the request declares. -/
theorem contentLength_onHead
    (hfind : find (bytes "\r\n\r\n") bs = some hdrEnd)
    (hline : IsRequestLine (lineOfHead (bs.take hdrEnd))) :
    (HttpRequest.new.onHead (bs.take hdrEnd)).2.contentLength = declaredLength bs := by
  apply contentLength_eq hfind
  rw [parseHead_eq]
  exact Prod.ext ((fst_onHead_iff _ _).mpr hline) rfl

/-- A fresh object finds a whole request iff there is one. -/
theorem fst_parse_new_iff
    (buf : Buffer) :
    (HttpRequest.new.parse buf).1 = true ↔ HoldsRequest buf.readable := by
  cases hfind : find (bytes "\r\n\r\n") buf.readable with
  | none =>
      rw [parse_of_no_head hfind]
      constructor
      · intro h
        cases h
      · rintro ⟨hdrEnd, line, hsome, -⟩
        rw [hfind] at hsome
        cases hsome
  | some hdrEnd =>
      have hbounds := find_blank_bounds hfind
      have hnew : ({ HttpRequest.new with ok := false } : HttpRequest) = HttpRequest.new := rfl
      rw [holdsRequest_iff hfind, parse_of_head hfind]
      dsimp only
      rw [hnew]
      simp only [fst_onHead_iff]
      split
      · next hline =>
          rw [contentLength_onHead hfind hline, List.length_drop]
          split
          · simp only [Bool.false_eq_true, hline, true_and, false_iff]
            omega
          · simp only [hline, true_and, true_iff]
            omega
      · next hline =>
          simp [hline]

/-- A header that the lines give, or that has no value to begin with, is found as on a
fresh object. -/
theorem getHeader_onHead
    {head name : Bytes} (hline : IsRequestLine (lineOfHead head))
    (h : valuesOf (toLower name) (linesOfHead head) ≠ [] ∨ req.getHeader name = []) :
    (req.onHead head).2.getHeader name = (HttpRequest.new.onHead head).2.getHeader name := by
  rw [HttpRequest.getHeader, HttpRequest.getHeader,
    lookup_onHead ((fst_onHead_iff _ _).mpr hline),
    lookup_onHead ((fst_onHead_iff _ _).mpr hline)]
  cases hlast : (valuesOf (toLower name) (linesOfHead head)).getLast? with
  | some v =>
      rfl
  | none =>
      rcases h with hgiven | hstale
      · exact absurd (List.getLast?_eq_none_iff.mp hlast) hgiven
      · exact hstale

/-- A stale length does not matter if the request has one, or if it has no value. -/
theorem contentLength_onHead_eq
    (hfind : find (bytes "\r\n\r\n") bs = some hdrEnd)
    (hline : IsRequestLine (lineOfHead (bs.take hdrEnd)))
    (h : HoldsRequest bs → ∀ name, req.getHeader name ≠ [] → Gives bs name) :
    (req.onHead (bs.take hdrEnd)).2.contentLength =
      (HttpRequest.new.onHead (bs.take hdrEnd)).2.contentLength := by
  have hdecided :
      valuesOf (toLower (bytes "Content-Length")) (linesOfHead (bs.take hdrEnd)) ≠ [] ∨
        req.getHeader (bytes "Content-Length") = [] := by
    rw [← headerLines_headerBlock hfind]
    by_cases hgiven : Gives bs (bytes "Content-Length")
    · exact .inl hgiven
    · have hnone : declaredLengths bs = [] := by
        rw [declaredLengths, ← toLower_contentLength]
        exact not_not.mp hgiven
      -- without a length line the request is whole
      have hholds : HoldsRequest bs := by
        rw [holdsRequest_iff hfind, declaredLength, hnone]
        exact ⟨hline, find_blank_bounds hfind⟩
      refine .inr ?_
      by_contra hstale
      exact hgiven (h hholds _ hstale)
  rw [HttpRequest.contentLength, getHeader_onHead hline hdecided]
  rfl

/-- Two calls that put everything back answer alike. -/
theorem sameAnswer_of_incomplete
    {a b : Bool × HttpRequest × Buffer} (ha : a.1 = false) (hb : b.1 = false)
    (hbuf : a.2.2.readable = b.2.2.readable) :
    SameAnswer a b where
  complete := ha.trans hb.symm
  remaining := hbuf
  method h := absurd (ha.symm.trans h) (by decide)
  path h := absurd (ha.symm.trans h) (by decide)
  query h := absurd (ha.symm.trans h) (by decide)
  version h := absurd (ha.symm.trans h) (by decide)
  body h := absurd (ha.symm.trans h) (by decide)
  header h := absurd (ha.symm.trans h) (by decide)

/-- Behind a request line the answers agree if the headers that are looked at do. -/
theorem sameAnswer_of_line
    (hsame : fresh.readable = buf.readable)
    (hfind : find (bytes "\r\n\r\n") buf.readable = some hdrEnd)
    (hline : IsRequestLine (lineOfHead (buf.readable.take hdrEnd)))
    (h : HoldsRequest buf.readable →
      ∀ name, req.getHeader name ≠ [] → Gives buf.readable name) :
    SameAnswer (req.parse buf) (HttpRequest.new.parse fresh) := by
  have hfind' : find (bytes "\r\n\r\n") fresh.readable = some hdrEnd := by
    rw [hsame, hfind]
  have hbounds := find_blank_bounds hfind
  have hdeclared := contentLength_onHead hfind hline
  have hnew : ({ HttpRequest.new with ok := false } : HttpRequest) = HttpRequest.new := rfl
  obtain ⟨begun, hbegun⟩ : ∃ begun : HttpRequest, begun = { req with ok := false } := ⟨_, rfl⟩
  have hstale : ∀ name, begun.getHeader name = req.getHeader name := by
    intro name
    rw [hbegun]
    rfl
  have hlength : (begun.onHead (buf.readable.take hdrEnd)).2.contentLength =
      (HttpRequest.new.onHead (buf.readable.take hdrEnd)).2.contentLength := by
    apply contentLength_onHead_eq hfind hline
    simpa only [hstale] using h
  obtain ⟨hmethod, hpath, hquery, hversion⟩ := onHead_fields hline begun HttpRequest.new
  rw [parse_of_head hfind, parse_of_head hfind', ← hbegun]
  dsimp only
  simp only [hnew, hsame, fst_onHead_iff, if_pos hline, hlength]
  split
  · exact sameAnswer_of_incomplete rfl rfl (by rw [readable_put_back, ← hsame, readable_put_back])
  · next hfits =>
      have hholds : HoldsRequest buf.readable := by
        rw [holdsRequest_iff hfind, ← hdeclared]
        refine ⟨hline, ?_⟩
        rw [List.length_drop] at hfits
        omega
      refine ⟨rfl, ?_, fun _ => hmethod, fun _ => hpath, fun _ => hquery, fun _ => hversion,
        fun _ => rfl, fun _ name => ?_⟩
      · split <;> simp
      · apply getHeader_onHead hline
        rw [← headerLines_headerBlock hfind, hstale]
        by_cases hempty : req.getHeader name = []
        · exact .inr hempty
        · exact .inl (h hholds name hempty)

/-- An object answers like a fresh one iff a whole request gives every header that the
object has with a value. -/
theorem sameAnswer_iff
    (req : HttpRequest) (hsame : fresh.readable = buf.readable) :
    SameAnswer (req.parse buf) (HttpRequest.new.parse fresh) ↔
      (HoldsRequest buf.readable →
        ∀ name, req.getHeader name ≠ [] → Gives buf.readable name) := by
  constructor
  · intro h hholds name hstale hnot
    have hfresh : (HttpRequest.new.parse fresh).1 = true := by
      rw [fst_parse_new_iff, hsame]
      exact hholds
    have hheader := h.header (h.complete.trans hfresh) name
    obtain ⟨hdrEnd, line, hfind, hfirst, hline, -⟩ := hholds
    have hlines : valuesOf (toLower name) (enteredLines buf.readable) = [] := by
      rw [enteredLines, hfirst]
      dsimp only
      rw [if_pos hline]
      exact hnot
    rw [HttpRequest.getHeader, HttpRequest.getHeader, lookup_parse, lookup_parse, hsame,
      hlines] at hheader
    exact hstale hheader
  · intro h
    cases hfind : find (bytes "\r\n\r\n") buf.readable with
    | none =>
        have hfind' : find (bytes "\r\n\r\n") fresh.readable = none := by
          rw [hsame, hfind]
        rw [parse_of_no_head hfind, parse_of_no_head hfind']
        exact sameAnswer_of_incomplete rfl rfl
          (by rw [readable_put_back, readable_put_back, hsame])
    | some hdrEnd =>
        have hfind' : find (bytes "\r\n\r\n") fresh.readable = some hdrEnd := by
          rw [hsame, hfind]
        by_cases hline : IsRequestLine (lineOfHead (buf.readable.take hdrEnd))
        · exact sameAnswer_of_line hsame hfind hline h
        · rw [parse_of_head hfind, parse_of_head hfind', hsame]
          dsimp only
          simp only [fst_onHead_iff, if_neg hline]
          exact sameAnswer_of_incomplete rfl rfl
            (by rw [readable_put_back, ← hsame, readable_put_back])

/-- An object that has been used answers like a fresh one iff a whole request gives every
header that an earlier one has left with a value. -/
theorem parse_reused_iff
    (earlier : List Buffer) (buf fresh : Buffer) (hsame : fresh.readable = buf.readable) :
    SameAnswer ((reused earlier).parse buf) (HttpRequest.new.parse fresh) ↔
      (HoldsRequest buf.readable →
        ∀ name, staleValue (earlier.map Buffer.readable) name ≠ [] →
          Gives buf.readable name) := by
  simp only [sameAnswer_iff (reused earlier) hsame, getHeader_reused]

/-- A post with a body, and the request behind it. -/
def firstPost : Buffer :=
  Buffer.new.append (bytes "POST /a HTTP/1.1\r\nContent-Length: 5\r\n\r\nhello")

def secondGet : Buffer :=
  Buffer.new.append (bytes "GET /b HTTP/1.1\r\n\r\n")

/-- An object that has read a request once reads the same request again. -/
theorem parse_reused_firstPost :
    SameAnswer ((reused [firstPost]).parse firstPost) (HttpRequest.new.parse firstPost) := by
  refine (parse_reused_iff [firstPost] firstPost firstPost rfl).mpr ?_
  intro _ name hstale hnot
  have hlines : ([firstPost].map Buffer.readable).flatMap enteredLines =
      headerLines (headerBlock firstPost.readable) := by
    decide +kernel
  rw [staleValue, hlines, hnot] at hstale
  exact hstale rfl

/-- The length of the post is left behind, and the request after it waits for a body. -/
theorem stale_length_awaited :
    ¬ ∀ (earlier : List Buffer) (buf : Buffer),
      SameAnswer ((reused earlier).parse buf) (HttpRequest.new.parse buf) := by
  intro hall
  have hcomplete := (hall [firstPost] secondGet).complete
  revert hcomplete
  decide +kernel

end Answer

end Http
end ChatRoom
