import ChatRoom.Web.Ledger

/-!
# The files that are opened

`dispatch_` glues the path of a request to the directory of the static files when
the path does not contain `..`.  `dispatchOpening` is `dispatch` with the names
that it tries to open.  They are in the directory iff the path begins with `/`,
which `parse` does not ask for.
-/

namespace ChatRoom
namespace Web
namespace HttpServer

open Http Text

/-- The static branch of `dispatch_`, with the names of the files it tries to open: a name
with `.html` first if the path has no extension. -/
def staticFileOpening (cfg : Config) (w : World) (h : HttpId) (req : HttpRequest) :
    List Bytes × World :=
  let url := if req.path = bytes "/" then bytes "/index.html" else req.path
  if Text.contains (bytes "..") url then
    ([], HttpConnection.send w h (HttpResponse.makeError 403 "Forbidden"))
  else
    let full := cfg.webroot ++ url
    let html := bytes ".html"
    let bare := (findLastOf 0x2E url).isNone
    let probed := if bare then [full ++ html] else []
    let probe := bare && (w.files (full ++ html)).isSome
    let full := if probe then full ++ html else full
    let served := if probe then url ++ html else url
    (probed ++ [full],
      match w.files full with
      | none => HttpConnection.send w h (HttpResponse.makeError 404 "Not Found")
      | some body =>
          HttpConnection.send w h
            (((HttpResponse.ofCode 200).contentType (mimeType served)).setBody body))

/-- `HttpServer::dispatch_` with the names of the files it tries to open. -/
def dispatchOpening (cfg : Config) (w : World) (h : HttpId) (req : HttpRequest) :
    List Bytes × Except Exn World :=
  if isUpgrade req then
    ([], .ok (handleWsUpgrade cfg w h req))
  else
    match (Routes.table cfg.json).find? fun route => route.1.isPrefixOf req.path with
    | some route => ([], route.2 w h req)
    | none => (staticFileOpening cfg w h req).map id .ok

section Opening

variable (cfg : Config) (w : World) (h : HttpId) (req : HttpRequest)

theorem staticFileOpening_snd :
    (staticFileOpening cfg w h req).2 = staticFile cfg w h req := by
  unfold staticFileOpening staticFile
  dsimp only
  generalize (if req.path = bytes "/" then bytes "/index.html" else req.path) = url
  split <;> rfl

/-- Apart from the names it is the same function. -/
theorem dispatchOpening_snd :
    (dispatchOpening cfg w h req).2 = dispatch cfg w h req := by
  unfold dispatchOpening dispatch
  split
  · rfl
  · cases (Routes.table cfg.json).find? fun route => route.1.isPrefixOf req.path with
    | some route =>
        rfl
    | none =>
        exact congrArg Except.ok (staticFileOpening_snd cfg w h req)

end Opening

/-- A name is the directory of the static files, a `/`, and a path that does not lead out of
the directory. -/
def UnderWebroot (cfg : Config) (name : Bytes) : Prop :=
  ∃ p, name = cfg.webroot ++ 0x2F :: p ∧ bytes ".." ∉ p.splitOn 0x2F

section Inside

/-- No part of a text without `..` is `..`. -/
theorem dotdot_not_mem_splitOn
    {p : Bytes} (hp : Text.contains (bytes "..") (0x2F :: p) = false) :
    bytes ".." ∉ p.splitOn 0x2F := by
  intro hpart
  have hinfix := (infix_of_mem_splitOn hpart).trans (List.suffix_cons 0x2F p).isInfix
  rw [contains_of_isInfix hinfix] at hp
  cases hp

/-- Nor is a part of a text without extension to which one is added. -/
theorem dotdot_not_mem_splitOn_html
    {p : Bytes} (hp : 0x2E ∉ p) :
    bytes ".." ∉ (p ++ bytes ".html").splitOn 0x2F := by
  intro hpart
  have hcount := (infix_of_mem_splitOn hpart).sublist.count_le 0x2E
  rw [List.count_append, List.count_eq_zero_of_not_mem hp] at hcount
  exact absurd hcount (by decide)

variable (cfg : Config) (w : World) (h : HttpId) (req : HttpRequest)

/-- The URL of the static branch. -/
def staticUrl : Bytes :=
  if req.path = bytes "/" then bytes "/index.html" else req.path

/-- Every name that is tried is the directory with the URL behind it, or that with an
extension, if the URL has none. -/
theorem mem_staticFileOpening
    {name : Bytes} (hname : name ∈ (staticFileOpening cfg w h req).1) :
    Text.contains (bytes "..") (staticUrl req) = false ∧
      (name = cfg.webroot ++ staticUrl req ∨
        0x2E ∉ staticUrl req ∧ name = cfg.webroot ++ staticUrl req ++ bytes ".html") := by
  unfold staticFileOpening at hname
  rw [← staticUrl] at hname
  dsimp only at hname
  split at hname
  · exact absurd hname List.not_mem_nil
  · next hdots =>
      refine ⟨Bool.eq_false_iff.mpr hdots, ?_⟩
      cases hlast : findLastOf 0x2E (staticUrl req) with
      | some dot =>
          refine .inl ?_
          simpa [hlast] using hname
      | none =>
          rw [hlast] at hname
          rw [findLastOf_eq_none] at hlast
          simp only [Option.isNone_none, if_true, Bool.true_and, List.mem_append,
            List.mem_singleton] at hname
          rcases hname with hname | hname
          · exact .inr ⟨hlast, hname⟩
          · split at hname
            · exact .inr ⟨hlast, hname⟩
            · exact .inl hname

/-- A name of the static branch is tried unless the URL contains `..`. -/
theorem exists_mem_staticFileOpening
    (hdots : Text.contains (bytes "..") (staticUrl req) = false) :
    ∃ name ∈ (staticFileOpening cfg w h req).1,
      name = cfg.webroot ++ staticUrl req ∨
        name = cfg.webroot ++ staticUrl req ++ bytes ".html" := by
  unfold staticFileOpening
  rw [← staticUrl]
  dsimp only
  rw [hdots, if_neg Bool.false_ne_true]
  refine ⟨_, List.mem_append_right _ (List.mem_singleton_self _), ?_⟩
  split
  · exact .inr rfl
  · exact .inl rfl

/-- All prefixes of the routes begin with `/`. -/
theorem slash_of_route
    {J : JsonLib} {path : Bytes}
    {route : Bytes × (World → HttpId → HttpRequest → Except Exn World)}
    (hroute : ((Routes.table J).find? fun route => route.1.isPrefixOf path) = some route) :
    [0x2F] <+: path := by
  have hprefixes : ∀ route ∈ (Routes.table J).map Prod.fst, [0x2F].isPrefixOf route = true := by
    simp only [Routes.table, List.map_cons, List.map_nil]
    decide
  have hslash := hprefixes route.1 (List.mem_map_of_mem (List.mem_of_find?_eq_some hroute))
  have hpath := List.find?_some hroute
  exact (List.isPrefixOf_iff_prefix.mp hslash).trans (List.isPrefixOf_iff_prefix.mp hpath)

/-- An upgrade request has the path `/ws`. -/
theorem slash_of_isUpgrade
    (hup : isUpgrade req = true) :
    [0x2F] <+: req.path := by
  have hpath : req.path = bytes "/ws" := (of_decide_eq_true hup).2.1
  rw [hpath]
  exact ⟨bytes "ws", rfl⟩

/-- Only the static branch tries to open files. -/
theorem dispatchOpening_cases :
    (dispatchOpening cfg w h req).1 = [] ∧ [0x2F] <+: req.path ∨
      (dispatchOpening cfg w h req).1 = (staticFileOpening cfg w h req).1 := by
  unfold dispatchOpening
  cases hup : isUpgrade req with
  | true =>
      exact .inl ⟨rfl, slash_of_isUpgrade req hup⟩
  | false =>
      cases hroute : (Routes.table cfg.json).find? fun route => route.1.isPrefixOf req.path with
      | some route =>
          exact .inl ⟨rfl, slash_of_route hroute⟩
      | none =>
          exact .inr rfl

/-- A path that begins with `/` leads to files in the directory. -/
theorem staticFileOpening_under_webroot
    (hslash : [0x2F] <+: req.path) {name : Bytes}
    (hname : name ∈ (staticFileOpening cfg w h req).1) :
    UnderWebroot cfg name := by
  have hurl : [0x2F] <+: staticUrl req := by
    rw [staticUrl]
    split
    · exact ⟨bytes "index.html", rfl⟩
    · exact hslash
  obtain ⟨p, hp⟩ := hurl
  obtain ⟨hdots, hcases⟩ := mem_staticFileOpening cfg w h req hname
  rw [← hp] at hdots hcases
  rcases hcases with rfl | ⟨hbare, rfl⟩
  · exact ⟨p, rfl, dotdot_not_mem_splitOn hdots⟩
  · refine ⟨p ++ bytes ".html", by simp, dotdot_not_mem_splitOn_html ?_⟩
    exact fun hmem => hbare (List.mem_append_right _ hmem)

/-- All files that a request tries to open are in the directory of the static files iff its
path begins with `/` or contains `..`, in which case no file is opened. -/
theorem dispatchOpening_under_webroot_iff :
    (∀ name ∈ (dispatchOpening cfg w h req).1, UnderWebroot cfg name) ↔
      [0x2F] <+: req.path ∨ Text.contains (bytes "..") req.path = true := by
  by_cases hslash : [0x2F] <+: req.path
  · refine iff_of_true ?_ (.inl hslash)
    intro name hname
    rcases dispatchOpening_cases cfg w h req with ⟨hnone, -⟩ | hstatic
    · rw [hnone] at hname
      exact absurd hname List.not_mem_nil
    · rw [hstatic] at hname
      exact staticFileOpening_under_webroot cfg w h req hslash hname
  · rw [or_iff_right hslash]
    have hstatic := (dispatchOpening_cases cfg w h req).resolve_left fun h => hslash h.2
    have hurl : staticUrl req = req.path := by
      rw [staticUrl, if_neg]
      intro hroot
      exact hslash (hroot ▸ ⟨[], rfl⟩)
    rw [hstatic]
    cases hdots : Text.contains (bytes "..") req.path with
    | true =>
        refine iff_of_true ?_ rfl
        intro name hname
        have hno := (mem_staticFileOpening cfg w h req hname).1
        rw [hurl, hdots] at hno
        cases hno
    | false =>
        refine iff_of_false ?_ Bool.false_ne_true
        intro hall
        obtain ⟨name, hname, hcases⟩ := exists_mem_staticFileOpening cfg w h req (hurl ▸ hdots)
        obtain ⟨p, hp, -⟩ := hall name hname
        rw [hurl] at hcases
        rcases hcases with rfl | rfl
        · exact hslash ⟨p, (List.append_cancel_left hp).symm⟩
        · rw [List.append_assoc] at hp
          have hfront := List.append_cancel_left hp
          cases hpath : req.path with
          | nil =>
              rw [hpath] at hfront
              cases hfront
          | cons b path =>
              rw [hpath] at hfront
              obtain ⟨rfl, -⟩ := List.cons.inj hfront
              exact hslash ⟨path, hpath.symm⟩

end Inside

/-- A request for a file beside the directory. -/
def besideWebroot : Bytes :=
  bytes "GET .bak HTTP/1.1\r\n\r\n"

theorem besideWebroot_opened :
    ∃ req readBuf, HttpRequest.new.parse (Buffer.new.append besideWebroot) = (true, req, readBuf) ∧
      ((Routes.table sampleConfig.json).find? fun route =>
        route.1.isPrefixOf req.path).isNone = true ∧
      bytes "src/frontend.bak" ∈ (dispatchOpening sampleConfig World.init 0 req).1 ∧
      ¬ UnderWebroot sampleConfig (bytes "src/frontend.bak") := by
  have hevaluated :
      (HttpRequest.new.parse (Buffer.new.append besideWebroot)).1 = true ∧
        ((Routes.table sampleConfig.json).find? fun route => route.1.isPrefixOf
          (HttpRequest.new.parse (Buffer.new.append besideWebroot)).2.1.path).isNone = true ∧
        bytes "src/frontend.bak" ∈ (dispatchOpening sampleConfig World.init 0
          (HttpRequest.new.parse (Buffer.new.append besideWebroot)).2.1).1 := by
    decide +kernel
  generalize HttpRequest.new.parse (Buffer.new.append besideWebroot) = parsed at hevaluated ⊢
  obtain ⟨complete, req, readBuf⟩ := parsed
  obtain ⟨rfl, hroute, hopened⟩ := hevaluated
  refine ⟨req, readBuf, rfl, hroute, hopened, ?_⟩
  rintro ⟨p, hp, -⟩
  have hsplit : bytes "src/frontend.bak" = sampleConfig.webroot ++ bytes ".bak" := by
    decide +kernel
  rw [hsplit] at hp
  exact absurd (List.cons.inj (List.append_cancel_left hp)).1 (by decide)

end HttpServer
end Web
end ChatRoom
