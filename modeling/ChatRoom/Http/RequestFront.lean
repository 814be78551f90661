import ChatRoom.Http.RoundTrip

/-!
# Which bytes can become a request

`parse` returns false for a request that is not complete and for one that never
will be.  The two are told apart by the first line: the bytes can be completed
iff their first line is a request line, or, if it has not ended yet, the front of
one (`IsRequestFront`).  The header block does not matter, and a body can always
be sent.
-/

namespace ChatRoom
namespace Http

open Text Incremental

/-- The versions that `parseRequestLine` knows. -/
def versions : List Bytes :=
  [bytes "HTTP/1.1", bytes "HTTP/1.0"]

/-- The part of an url in front of a question mark is not empty. -/
def HasPath (url : Bytes) : Prop :=
  ∃ c rest, url = c :: rest ∧ c ≠ 0x3F

/-- A line `method url version`. -/
def IsRequestLine (line : Bytes) : Prop :=
  ∃ method url version, line = method ++ (SP :: (url ++ (SP :: version))) ∧
    SP ∉ method ∧ SP ∉ url ∧ HasPath url ∧ version ∈ versions

/-- Bytes that can become a request line and the CR behind it: not yet a blank, or one
blank and what is there of the url, or two blanks and what is there of the version. -/
def IsLineFront (bs : Bytes) : Prop :=
  SP ∉ bs ∨
    (∃ method url, bs = method ++ (SP :: url) ∧ SP ∉ method ∧ SP ∉ url ∧
      (url = [] ∨ HasPath url)) ∨
    ∃ method url front, bs = method ++ (SP :: (url ++ (SP :: front))) ∧
      SP ∉ method ∧ SP ∉ url ∧ HasPath url ∧ ∃ version ∈ versions, front <+: version ++ [CR]

/-- The first line of some bytes, if it has ended. -/
def firstLine (bs : Bytes) : Option Bytes :=
  (find (bytes "\r\n") bs).map fun lineEnd => bs.take lineEnd

/-- Bytes that can be completed to a request. -/
def IsRequestFront (bs : Bytes) : Prop :=
  match firstLine bs with
  | some line => IsRequestLine line
  | none => IsLineFront bs

section Crlf

variable {a t : Bytes}

/-- Behind a text without CRLF, and more bytes that have no LF, there is still no CRLF. -/
theorem find_crlf_append
    (ha : find crlf a = none) (ht : LF ∉ t) :
    find crlf (a ++ t) = none := by
  induction a with
  | nil =>
      cases hfind : find crlf t with
      | none =>
          exact hfind
      | some i =>
          rw [find_split hfind] at ht
          simp [crlf] at ht
  | cons b a ih =>
      rw [find] at ha
      split at ha
      · cases ha
      · next hno =>
          have hlater : crlf.isPrefixOf (b :: (a ++ t)) = false := by
            cases a with
            | nil =>
                cases t with
                | nil =>
                    simp [crlf, List.isPrefixOf]
                | cons c t =>
                    have hc : LF ≠ c := fun h => ht (by simp [h])
                    simp [crlf, List.isPrefixOf, hc]
            | cons c a =>
                simpa [crlf, List.isPrefixOf] using hno
          rw [List.cons_append, find_cons hlater, ih (Option.map_eq_none_iff.mp ha)]
          rfl

/-- The first CRLF is the one behind a text that has none. -/
theorem find_crlf_behind
    (ha : find crlf a = none) (s : Bytes) :
    find crlf (a ++ (crlf ++ s)) = some a.length := by
  induction a with
  | nil =>
      exact find_front s
  | cons b a ih =>
      rw [find] at ha
      split at ha
      · cases ha
      · next hno =>
          have hlater : crlf.isPrefixOf (b :: (a ++ (crlf ++ s))) = false := by
            cases a with
            | nil =>
                have hne : LF ≠ CR := by decide
                simp [crlf, List.isPrefixOf, hne]
            | cons c a =>
                simpa [crlf, List.isPrefixOf] using hno
          rw [List.cons_append, find_cons hlater, ih (Option.map_eq_none_iff.mp ha)]
          rfl

end Crlf

section Lines

variable {line bs : Bytes}

/-- A line that ends stays the first one when more bytes follow. -/
theorem firstLine_append
    (h : firstLine bs = some line) (more : Bytes) :
    firstLine (bs ++ more) = some line := by
  obtain ⟨lineEnd, hfind, rfl⟩ := Option.map_eq_some_iff.mp h
  have hbounds := find_bounds hfind
  rw [firstLine, find_append hfind more, Option.map_some,
    List.take_append_of_le_length (by omega)]

theorem firstLine_behind
    (hline : find crlf line = none) (s : Bytes) :
    firstLine (line ++ (crlf ++ s)) = some line := by
  rw [firstLine, bytes_crlf, find_crlf_behind hline, Option.map_some, List.take_left]

theorem fst_parseHead
    (head : Bytes) :
    (parseHead head).1 = (HttpRequest.new.parseRequestLine (lineOfHead head)).1 := by
  rw [parseHead_eq, fst_onHead]

/-- The first line of the bytes is the line that `parse` looks at. -/
theorem firstLine_of_head
    {hdrEnd : Nat} (h : find (bytes "\r\n\r\n") bs = some hdrEnd) :
    firstLine bs = some (lineOfHead (bs.take hdrEnd)) := by
  unfold lineOfHead
  cases hline : find (bytes "\r\n") (bs.take hdrEnd) with
  | some lineEnd =>
      have hfirst : firstLine (bs.take hdrEnd) = some ((bs.take hdrEnd).take lineEnd) := by
        rw [firstLine, hline, Option.map_some]
      have hall := firstLine_append hfirst (bs.drop hdrEnd)
      rwa [List.take_append_drop] at hall
  | none =>
      have hsplit := find_split h
      rw [bytes_crlfcrlf, List.append_assoc] at hsplit
      rw [bytes_crlf] at hline
      have hfirst := firstLine_behind hline (crlf ++ bs.drop (hdrEnd + (crlf ++ crlf).length))
      rwa [← hsplit] at hfirst

end Lines

section RequestLine

variable {line bs : Bytes}

/-- A text is split at its first blank in one way. -/
theorem split_unique
    {c : UInt8} {a b a' b' : Bytes} (ha : c ∉ a) (ha' : c ∉ a')
    (h : a ++ c :: b = a' ++ c :: b') :
    a = a' ∧ b = b' := by
  have hfind : find [c] (a ++ c :: b) = some a.length := find_behind ha b
  have hfind' : find [c] (a' ++ c :: b') = some a'.length := find_behind ha' b'
  rw [h, hfind'] at hfind
  obtain ⟨hfront, hback⟩ := List.append_inj h (Option.some.inj hfind).symm
  exact ⟨hfront, (List.cons.inj hback).2⟩

/-- The path that `parseRequestLine` finds in an url. -/
def pathOf (url : Bytes) : Bytes :=
  match find (bytes "?") url with
  | none => url
  | some q => url.take q

theorem pathOf_ne_nil_iff
    (url : Bytes) :
    pathOf url ≠ [] ↔ HasPath url := by
  have hmark : bytes "?" = [0x3F] := by
    decide
  unfold pathOf HasPath
  rw [hmark]
  cases url with
  | nil =>
      simp [find]
  | cons c rest =>
      by_cases hc : c = 0x3F
      · subst hc
        have hfront : find [0x3F] (0x3F :: rest) = some 0 := find_front rest
        simp [hfront]
      · have hno : List.isPrefixOf [0x3F] (c :: rest) = false := by
          simpa [List.isPrefixOf] using Ne.symm hc
        rw [find_cons hno]
        cases find [0x3F] rest <;> simp [hc]

/-- What `parseRequestLine` makes of a line with two blanks. -/
theorem parseRequestLine_blanks
    {method url version : Bytes} (hmethod : SP ∉ method) (hurl : SP ∉ url)
    (req : HttpRequest) :
    (req.parseRequestLine (method ++ (SP :: (url ++ (SP :: version))))).1 = true ↔
      HasPath url ∧ version ∈ versions := by
  have hblank : bytes " " = [SP] := by
    decide
  have hsp1 : find [SP] (method ++ (SP :: (url ++ (SP :: version)))) = some method.length :=
    find_behind hmethod _
  have hdrop1 : (method ++ (SP :: (url ++ (SP :: version)))).drop (method.length + 1) =
      url ++ (SP :: version) := by
    rw [← List.drop_drop, List.drop_left]
    rfl
  have hsp2 : findFrom [SP] (method ++ (SP :: (url ++ (SP :: version)))) (method.length + 1) =
      some (url.length + (method.length + 1)) := by
    have h : find [SP] (url ++ (SP :: version)) = some url.length := find_behind hurl version
    rw [findFrom, hdrop1, h, Option.map_some]
  have hwidth : url.length + (method.length + 1) - method.length - 1 = url.length := by
    omega
  have hback : url.length + (method.length + 1) + 1 = method.length + 1 + (url.length + 1) := by
    omega
  have hversion : (method ++ (SP :: (url ++ (SP :: version)))).drop
      (url.length + (method.length + 1) + 1) = version := by
    rw [hback, ← List.drop_drop, hdrop1, ← List.drop_drop, List.drop_left]
    rfl
  simp only [HttpRequest.parseRequestLine, hblank, hsp1, hsp2, hversion, substr, hdrop1, hwidth,
    List.take_left]
  rw [← pathOf_ne_nil_iff, versions, List.mem_cons, List.mem_singleton, pathOf]
  by_cases hknown : version ≠ bytes "HTTP/1.1" ∧ version ≠ bytes "HTTP/1.0"
  · rw [if_pos hknown]
    simp [hknown.1, hknown.2]
  · rw [if_neg hknown]
    have hone : version = bytes "HTTP/1.1" ∨ version = bytes "HTTP/1.0" := by
      tauto
    cases find (bytes "?") url <;> simp [hone]

/-- `parseRequestLine` accepts the request lines. -/
theorem parseRequestLine_iff
    (req : HttpRequest) (line : Bytes) :
    (req.parseRequestLine line).1 = true ↔ IsRequestLine line := by
  have hblank : bytes " " = [SP] := by
    decide
  rcases find_singleton_cases SP line with ⟨hmem, hnone⟩ | ⟨method, behind, rfl, hmethod, hsome⟩
  · have hreject : ¬ IsRequestLine line := by
      rintro ⟨method, url, version, rfl, -⟩
      simp at hmem
    simp [HttpRequest.parseRequestLine, hblank, hnone, hreject]
  · rcases find_singleton_cases SP behind with ⟨hmem, hnone⟩ | ⟨url, version, rfl, hurl, -⟩
    · have hreject : ¬ IsRequestLine (method ++ SP :: behind) := by
        rintro ⟨method', url, version, heq, hmethod', -⟩
        obtain ⟨-, rfl⟩ := split_unique hmethod hmethod' heq
        simp at hmem
      have hdrop : (method ++ SP :: behind).drop (method.length + 1) = behind := by
        rw [← List.drop_drop, List.drop_left]
        rfl
      simp [HttpRequest.parseRequestLine, hblank, hsome, findFrom, hdrop, hnone, hreject]
    · rw [parseRequestLine_blanks hmethod hurl]
      constructor
      · rintro ⟨hpath, hversion⟩
        exact ⟨method, url, version, rfl, hmethod, hurl, hpath, hversion⟩
      · rintro ⟨method', url', version', heq, hmethod', hurl', hpath, hversion⟩
        obtain ⟨-, hrest⟩ := split_unique hmethod hmethod' heq
        obtain ⟨rfl, rfl⟩ := split_unique hurl hurl' hrest
        exact ⟨hpath, hversion⟩

end RequestLine

section Completion

variable {line bs : Bytes}

/-- A request that is complete begins with a request line. -/
theorem firstLine_of_done
    {n : Nat} {req : HttpRequest} (h : requestVerdict bs = .done n req) :
    ∃ line, firstLine bs = some line ∧ IsRequestLine line := by
  obtain ⟨hdrEnd, head, hfind, hhead, -⟩ := requestVerdict_eq_done_iff.mp h
  refine ⟨_, firstLine_of_head hfind, ?_⟩
  rw [← parseRequestLine_iff HttpRequest.new, ← fst_parseHead, hhead]

/-- Behind a request line, a blank line and the declared number of bytes complete the
request. -/
theorem completes_of_line
    (hfirst : firstLine bs = some line) (hline : IsRequestLine line) :
    ∃ more n req, requestVerdict (bs ++ more) = .done n req := by
  obtain ⟨hdrEnd, -, hfind⟩ : ∃ i ≤ bs.length, find (bytes "\r\n\r\n")
      (bs ++ bytes "\r\n\r\n") = some i := by
    apply find_le
    · rw [List.drop_left]
    · simp
  have hsame := firstLine_append hfirst (bytes "\r\n\r\n")
  rw [firstLine_of_head hfind, Option.some.injEq] at hsame
  have haccept := fst_parseHead ((bs ++ bytes "\r\n\r\n").take hdrEnd)
  rw [hsame, (parseRequestLine_iff _ line).mpr hline] at haccept
  cases hhead : parseHead ((bs ++ bytes "\r\n\r\n").take hdrEnd) with
  | mk complete head =>
      rw [hhead] at haccept
      obtain rfl : complete = true := haccept
      have hbounds := find_blank_bounds hfind
      have hbody := find_append hfind (List.replicate head.contentLength 0)
      refine ⟨bytes "\r\n\r\n" ++ List.replicate head.contentLength 0, _, _,
        requestVerdict_eq_done_iff.mpr ⟨hdrEnd, head, ?_, ?_, rfl, ?_, rfl⟩⟩
      · rw [← List.append_assoc, hbody]
      · rw [← List.append_assoc, List.take_append_of_le_length (by omega), hhead]
      · rw [← List.append_assoc, List.length_append, List.length_replicate]
        omega

/-- What stands in front of the end of a request line is the front of one. -/
theorem isLineFront_of_prefix
    (hline : IsRequestLine line) (hbs : bs <+: line ++ [CR]) :
    IsLineFront bs := by
  have hcr : SP ∉ [CR] := by
    decide
  obtain ⟨method, url, version, rfl, hmethod, hurl, hpath, hversion⟩ := hline
  rcases find_singleton_cases SP bs with ⟨hmem, -⟩ | ⟨method', behind, rfl, hmethod', -⟩
  · exact .inl hmem
  · obtain ⟨rest, hrest⟩ := hbs
    rw [List.append_assoc, List.append_assoc, List.cons_append, List.cons_append,
      List.append_assoc, List.cons_append] at hrest
    obtain ⟨rfl, hbehind⟩ := split_unique hmethod' hmethod hrest
    rcases find_singleton_cases SP behind with ⟨hmem, -⟩ | ⟨url', front, rfl, hurl', -⟩
    · refine .inr (.inl ⟨method', behind, rfl, hmethod', hmem, ?_⟩)
      obtain ⟨c, path, rfl, hc⟩ := hpath
      cases behind with
      | nil =>
          exact .inl rfl
      | cons b behind =>
          obtain ⟨rfl, -⟩ := List.cons.inj hbehind
          exact .inr ⟨b, behind, rfl, hc⟩
    · rw [List.append_assoc, List.cons_append] at hbehind
      obtain ⟨rfl, hfront⟩ := split_unique hurl' hurl hbehind
      exact .inr (.inr ⟨method', url', front, rfl, hmethod', hurl', hpath, version, hversion,
        rest, hfront⟩)

/-- The front of a request line can be completed to one, and its end can be sent. -/
theorem exists_line_of_front
    (hnone : find crlf bs = none) (hfront : IsLineFront bs) :
    ∃ more line, firstLine (bs ++ more) = some line ∧ IsRequestLine line := by
  have hsuffix : ∀ t line, LF ∉ t → bs ++ t = line → IsRequestLine line →
      ∃ more line, firstLine (bs ++ more) = some line ∧ IsRequestLine line := by
    rintro t line ht rfl hline
    refine ⟨t ++ (crlf ++ []), bs ++ t, ?_, hline⟩
    rw [← List.append_assoc]
    exact firstLine_behind (find_crlf_append hnone ht) []
  rcases hfront with hmem | ⟨method, url, rfl, hmethod, hurl, hpath⟩ |
    ⟨method, url, front, rfl, hmethod, hurl, hpath, version, hversion, hprefix⟩
  · refine hsuffix (SP :: ([0x2F] ++ SP :: bytes "HTTP/1.1")) _ (by decide) rfl ?_
    exact ⟨bs, [0x2F], bytes "HTTP/1.1", rfl, hmem, by decide, ⟨0x2F, [], rfl, by decide⟩,
      by simp [versions]⟩
  · refine hsuffix ([0x2F] ++ SP :: bytes "HTTP/1.1") _ (by decide) rfl ?_
    refine ⟨method, url ++ [0x2F], bytes "HTTP/1.1", by simp, hmethod, ?_, ?_,
      by simp [versions]⟩
    · have hslash : SP ≠ 0x2F := by
        decide
      simp [hurl, hslash]
    · rcases hpath with rfl | ⟨c, path, rfl, hc⟩
      · exact ⟨0x2F, [], rfl, by decide⟩
      · exact ⟨c, path ++ [0x2F], rfl, hc⟩
  · have hline : IsRequestLine (method ++ (SP :: (url ++ (SP :: version)))) :=
      ⟨method, url, version, rfl, hmethod, hurl, hpath, hversion⟩
    rcases List.prefix_concat_iff.mp hprefix with rfl | ⟨t, rfl⟩
    · -- the CR is there already
      have hbs : method ++ (SP :: (url ++ (SP :: (version ++ [CR])))) =
          method ++ (SP :: (url ++ (SP :: version))) ++ [CR] := by
        simp
      rw [hbs] at hnone ⊢
      have hline_none : find crlf (method ++ (SP :: (url ++ (SP :: version)))) = none := by
        cases hfind : find crlf (method ++ (SP :: (url ++ (SP :: version)))) with
        | none =>
            rfl
        | some i =>
            rw [find_append hfind [CR]] at hnone
            cases hnone
      refine ⟨[LF], _, ?_, hline⟩
      rw [List.append_assoc]
      exact firstLine_behind hline_none []
    · refine hsuffix t _ ?_ (by simp) hline
      intro hmem
      have hall : LF ∉ front ++ t := by
        have hknown : ∀ v ∈ versions, LF ∉ v := by
          decide
        exact hknown _ hversion
      exact hall (List.mem_append_right front hmem)

/-- A line that ends later goes on at least to the end of the bytes, or to the CR there. -/
theorem prefix_of_firstLine
    {more : Bytes} (hnone : firstLine bs = none) (hfirst : firstLine (bs ++ more) = some line) :
    bs <+: line ++ [CR] := by
  rw [firstLine, Option.map_eq_none_iff, bytes_crlf] at hnone
  obtain ⟨lineEnd, hfind, hline⟩ := Option.map_eq_some_iff.mp hfirst
  rw [bytes_crlf] at hfind
  have hsplit := find_split hfind
  rw [hline] at hsplit
  generalize (bs ++ more).drop (lineEnd + crlf.length) = back at hsplit
  have hcr : line ++ [CR] <+: bs ++ more := ⟨LF :: back, by rw [hsplit]; simp [crlf]⟩
  rcases List.prefix_or_prefix_of_prefix (List.prefix_append bs more) hcr with h | ⟨rest, rfl⟩
  · exact h
  · cases rest with
    | nil =>
        rw [List.append_nil]
    | cons b rest =>
        -- the LF would be among the bytes
        obtain rfl : b = LF := by
          simp only [List.append_assoc, crlf, List.cons_append, List.nil_append] at hsplit
          have htail := List.append_cancel_left hsplit
          exact (List.cons.inj (List.cons.inj htail).2).1
        have hcrlf : crlf <+: (line ++ [CR] ++ LF :: rest).drop line.length :=
          ⟨rest, by simp [crlf]⟩
        obtain ⟨i, -, hi⟩ := find_le hcrlf (by simp)
        rw [hi] at hnone
        cases hnone

/-- Bytes can be completed to a request iff they are the front of one. -/
theorem completes_iff
    (bs : Bytes) :
    (∃ more n req, requestVerdict (bs ++ more) = .done n req) ↔ IsRequestFront bs := by
  unfold IsRequestFront
  constructor
  · rintro ⟨more, n, req, hdone⟩
    obtain ⟨line, hfirst, hline⟩ := firstLine_of_done hdone
    cases hbs : firstLine bs with
    | some line' =>
        rw [firstLine_append hbs more] at hfirst
        cases hfirst
        exact hline
    | none =>
        exact isLineFront_of_prefix hline (prefix_of_firstLine hbs hfirst)
  · cases hbs : firstLine bs with
    | some line =>
        exact completes_of_line hbs
    | none =>
        intro hfront
        rw [firstLine, Option.map_eq_none_iff, bytes_crlf] at hbs
        obtain ⟨more, line, hfirst, hline⟩ := exists_line_of_front hbs hfront
        obtain ⟨more', n, req, hdone⟩ := completes_of_line hfirst hline
        exact ⟨more ++ more', n, req, by rw [← List.append_assoc]; exact hdone⟩

/-- Bytes that cannot become a request wait, and so do all that begin with them. -/
theorem wait_of_not_front
    (h : ¬ IsRequestFront bs) (more : Bytes) :
    requestVerdict (bs ++ more) = .wait := by
  cases hverdict : requestVerdict (bs ++ more) with
  | wait =>
      rfl
  | done n req =>
      exact absurd ((completes_iff bs).mp ⟨more, n, req, hverdict⟩) h
  | malformed =>
      exact absurd hverdict (requestVerdict_ne_malformed _)

/-- `parse` finds a complete request or waits. -/
theorem fst_parse_eq_true_iff
    (buf : Buffer) :
    (HttpRequest.new.parse buf).1 = true ↔
      ∃ n req, requestVerdict buf.readable = .done n req := by
  cases hverdict : requestVerdict buf.readable with
  | done n req =>
      obtain ⟨buf', hparse, -⟩ := parse_of_done hverdict
      rw [hparse]
      exact iff_of_true rfl ⟨n, req, rfl⟩
  | wait =>
      obtain ⟨req, buf', hparse, -⟩ := parse_of_wait hverdict
      rw [hparse]
      simp
  | malformed =>
      exact absurd hverdict (requestVerdict_ne_malformed _)

end Completion

end Http
end ChatRoom
