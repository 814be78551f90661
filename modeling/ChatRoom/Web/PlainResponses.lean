import ChatRoom.Http.ResponseStream
import ChatRoom.Web.Responses
import ChatRoom.Ws.Base64Text

/-!
# The responses of the server are plain

Whatever a client sends, the response it is given can be told apart from what follows:
its reason, and the names and values of its headers, are texts of the program, the name
of a content type or the digest of a key.
-/

namespace ChatRoom
namespace Web

open Http Routes Runs

section Building

variable {r : HttpResponse}

/-- A property of the bytes of a text, byte by byte. -/
theorem forall_of_all
    {p : UInt8 → Prop} [DecidablePred p] {s : Bytes} (h : (s.all fun c => p c) = true) :
    ∀ c ∈ s, p c := by
  intro c hc
  exact of_decide_eq_true (List.all_eq_true.mp h c hc)

/-- A choice of two texts. -/
theorem plain_ite
    {p : Prop} [Decidable p] {s t : Bytes} (hs : ∀ c ∈ s, c ≠ CR ∧ c ≠ LF)
    (ht : ∀ c ∈ t, c ≠ CR ∧ c ≠ LF) :
    ∀ c ∈ (if p then s else t), c ≠ CR ∧ c ≠ LF := by
  split
  · exact hs
  · exact ht

theorem defaultReason_plain
    (code : Int) :
    ∀ c ∈ defaultReason code, c ≠ CR ∧ c ≠ LF := by
  unfold defaultReason
  repeat refine plain_ite (forall_of_all (by decide)) ?_
  exact forall_of_all (by decide)

/-- A response with one header. -/
theorem plain_of_header
    {k v : Bytes} (hreason : ∀ c ∈ r.reason, c ≠ CR ∧ c ≠ LF)
    (hentries : r.headers.entries = [⟨k, v⟩]) (hk : ∀ c ∈ k, c ≠ 0x3A ∧ c ≠ CR ∧ c ≠ LF)
    (hv : ∀ c ∈ v, c ≠ CR ∧ c ≠ LF) (hlength : Text.toLower k ≠ bytes "content-length") :
    PlainResponse r where
  reason_plain := hreason
  names_plain := by simpa [hentries] using hk
  values_plain := by simpa [hentries] using hv
  not_length := by simpa [hentries] using hlength
  one_connection := by simp [hentries]

/-- A response with a content type and the usual reason. -/
theorem plain_of_contentType
    (code : Int) {mime : Bytes} (hreason : r.reason = defaultReason code)
    (hentries : r.headers.entries = [⟨bytes "Content-Type", mime⟩])
    (hmime : ∀ c ∈ mime, c ≠ CR ∧ c ≠ LF) :
    PlainResponse r := by
  refine plain_of_header ?_ hentries (forall_of_all (by decide)) hmime (by decide)
  rw [hreason]
  exact defaultReason_plain code

theorem plain_jsonResp
    (J : JsonLib) (code : Int) (j : Json) :
    PlainResponse (jsonResp J code j) := by
  have hmime : ∀ c ∈ bytes "application/json", c ≠ CR ∧ c ≠ LF :=
    forall_of_all (by decide)
  exact plain_of_contentType code rfl rfl hmime

theorem plain_makeError
    (code : Int) (msg : String) :
    PlainResponse (HttpResponse.makeError code msg) := by
  have hmime : ∀ c ∈ bytes "application/json", c ≠ CR ∧ c ≠ LF :=
    forall_of_all (by decide)
  exact plain_of_contentType code rfl rfl hmime

theorem mimeType_plain
    (path : Bytes) :
    ∀ c ∈ HttpServer.mimeType path, c ≠ CR ∧ c ≠ LF := by
  unfold HttpServer.mimeType
  split
  · exact forall_of_all (by decide)
  · dsimp only
    repeat refine plain_ite (forall_of_all (by decide)) ?_
    exact forall_of_all (by decide)

theorem plain_file
    (path body : Bytes) :
    PlainResponse
      (((HttpResponse.ofCode 200).contentType (HttpServer.mimeType path)).setBody body) :=
  plain_of_contentType 200 rfl rfl (mimeType_plain path)

/-- The text of a digest has no line ends. -/
theorem computeAcceptKey_plain
    (key : Bytes) :
    ∀ c ∈ Ws.computeAcceptKey key, c ≠ CR ∧ c ≠ LF := by
  intro c hc
  rw [Ws.computeAcceptKey, Ws.base64Encode_eq] at hc
  obtain ⟨front, hfront, heq⟩ := Base64.standard.exists_encode_eq
    ((Ws.Sha1.init.update (key ++ Ws.MAGIC_GUID)).final)
  rw [heq] at hc
  rcases List.mem_append.mp hc with hc | hc
  · have hdigits : ∀ c ∈ Base64.standard.digits, c ≠ CR ∧ c ≠ LF :=
      forall_of_all (by decide +kernel)
    exact hdigits c (hfront c hc)
  · rw [(List.mem_replicate.mp hc).2]
    decide

theorem plain_switchingProtocols
    {accept : Bytes} (haccept : ∀ c ∈ accept, c ≠ CR ∧ c ≠ LF) :
    PlainResponse (HttpServer.switchingProtocols accept) := by
  have hentries : (HttpServer.switchingProtocols accept).headers.entries =
      [⟨bytes "Sec-WebSocket-Accept", accept⟩, ⟨bytes "Connection", bytes "Upgrade"⟩,
        ⟨bytes "Upgrade", bytes "websocket"⟩] := by
    rfl
  let names := [bytes "Sec-WebSocket-Accept", bytes "Connection", bytes "Upgrade"]
  have hnames : ∀ e ∈ (HttpServer.switchingProtocols accept).headers.entries, e.1 ∈ names := by
    simp [hentries, names]
  have hplain : ∀ k ∈ names, ∀ c ∈ k, c ≠ 0x3A ∧ c ≠ CR ∧ c ≠ LF := by
    intro k hk
    simp only [names, List.mem_cons, List.not_mem_nil, or_false] at hk
    rcases hk with rfl | rfl | rfl
    · exact forall_of_all (by decide)
    · exact forall_of_all (by decide)
    · exact forall_of_all (by decide)
  have hlength : ∀ k ∈ names, Text.toLower k ≠ bytes "content-length" := by
    decide
  have hconnection : ∀ k ∈ names, Text.toLower k = bytes "connection" →
      k = bytes "Connection" := by
    decide
  have hreason : ∀ c ∈ bytes "Switching Protocols", c ≠ CR ∧ c ≠ LF :=
    forall_of_all (by decide)
  refine
    { reason_plain := hreason
      names_plain := fun e he => hplain _ (hnames e he)
      values_plain := ?_
      not_length := fun e he => hlength _ (hnames e he)
      one_connection := ?_ }
  · rw [hentries]
    intro e he
    simp only [List.mem_cons, List.not_mem_nil, or_false] at he
    rcases he with rfl | rfl | rfl
    · exact haccept
    · exact forall_of_all (by decide)
    · exact forall_of_all (by decide)
  · intro e he e' he' hname hname'
    rw [hconnection _ (hnames e he) hname, hconnection _ (hnames e' he') hname']

end Building

section Answering

variable {cfg : Config} {w w' : World} {h : HttpId} {req : HttpRequest}

/-- The last entry of the history is a plain response to a connection, after which the
connection is to be closed. -/
def EndsPlain (h : HttpId) (w : World) : Prop :=
  ∃ past resp, w.trace = past ++ [.response h resp] ∧ PlainResponse resp ∧
    resp.keepAlive = false

theorem endsPlain_send
    (w : World) (h : HttpId) {resp : HttpResponse} (hresp : PlainResponse resp)
    (hcloses : resp.keepAlive = false) :
    EndsPlain h (HttpConnection.send w h resp) :=
  ⟨w.trace, resp, trace_send w h resp, hresp, hcloses⟩

theorem requireToken_plain
    {J : JsonLib} (hrefused : requireToken J w h req = (w', none)) :
    EndsPlain h w' := by
  unfold requireToken at hrefused
  dsimp only at hrefused
  split at hrefused
  · cases hrefused
    exact endsPlain_send w h (plain_jsonResp J _ _) rfl
  · split at hrefused
    · cases hrefused
      exact endsPlain_send w h (plain_jsonResp J _ _) rfl
    · cases hrefused

theorem login_plain
    {J : JsonLib} (hok : login J w h req = .ok w') :
    EndsPlain h w' := by
  unfold login at hok
  split at hok
  · cases hok
    exact endsPlain_send _ h (plain_jsonResp J _ _) rfl
  · split at hok
    · cases hok
      exact endsPlain_send _ h (plain_jsonResp J _ _) rfl
    · obtain ⟨u, -, rfl⟩ := map_eq_ok.mp hok
      split
      · exact endsPlain_send _ h (plain_jsonResp J _ _) rfl
      · split
        · exact endsPlain_send _ h (plain_jsonResp J _ _) rfl
        · exact endsPlain_send _ h (plain_jsonResp J _ _) rfl

theorem users_plain
    {J : JsonLib} (hok : users J w h req = .ok w') :
    EndsPlain h w' := by
  unfold users at hok
  split at hok
  · next w₁ hrefused =>
      cases hok
      exact requireToken_plain hrefused
  · cases hok
    exact endsPlain_send _ h (plain_jsonResp J _ _) rfl

theorem messages_plain
    {J : JsonLib} (hok : messages J w h req = .ok w') :
    EndsPlain h w' := by
  unfold messages at hok
  split at hok
  · next w₁ hrefused =>
      cases hok
      exact requireToken_plain hrefused
  · split at hok
    · cases hok
      exact endsPlain_send _ h (plain_jsonResp J _ _) rfl
    · split at hok
      · split at hok
        · cases hok
          exact endsPlain_send _ h (plain_jsonResp J _ _) rfl
        · obtain ⟨content, -, rfl⟩ := map_eq_ok.mp hok
          split
          · exact endsPlain_send _ h (plain_jsonResp J _ _) rfl
          · exact endsPlain_send _ h (plain_jsonResp J _ _) rfl
      · cases hok
        exact endsPlain_send _ h (plain_jsonResp J _ _) rfl

theorem logout_plain
    {J : JsonLib} (hok : logout J w h req = .ok w') :
    EndsPlain h w' := by
  unfold logout at hok
  split at hok
  · next w₁ hrefused =>
      cases hok
      exact requireToken_plain hrefused
  · cases hok
    exact endsPlain_send _ h (plain_jsonResp J _ _) rfl

theorem staticFile_plain
    (cfg : Config) (w : World) (h : HttpId) (req : HttpRequest) :
    EndsPlain h (HttpServer.staticFile cfg w h req) := by
  unfold HttpServer.staticFile
  dsimp only
  generalize (if req.path = bytes "/" then bytes "/index.html" else req.path) = url
  split
  · exact endsPlain_send _ h (plain_makeError _ _) rfl
  · split
    · exact endsPlain_send _ h (plain_makeError _ _) rfl
    · exact endsPlain_send _ h (plain_file _ _) rfl

theorem handleWsUpgrade_plain
    (cfg : Config) (w : World) (h : HttpId) (req : HttpRequest) :
    EndsPlain h (HttpServer.handleWsUpgrade cfg w h req) := by
  unfold HttpServer.handleWsUpgrade
  dsimp only
  split
  · exact endsPlain_send _ h (plain_makeError _ _) rfl
  · generalize (if (req.getQuery (bytes "token")).isEmpty then "" else
      w.tokens.lookup (req.getQuery (bytes "token"))) = user
    split
    · exact endsPlain_send _ h (plain_makeError _ _) rfl
    · split
      · exact endsPlain_send _ h (plain_makeError _ _) rfl
      · split
        · exact endsPlain_send _ h (plain_makeError _ _) rfl
        · exact endsPlain_send _ h (plain_switchingProtocols (computeAcceptKey_plain _)) rfl

/-- Every request is answered with a plain response. -/
theorem dispatch_plain
    (hok : HttpServer.dispatch cfg w h req = .ok w') :
    EndsPlain h w' := by
  unfold HttpServer.dispatch at hok
  split at hok
  · cases hok
    exact handleWsUpgrade_plain cfg w h req
  · split at hok
    · next route hroute =>
        have hmem := List.mem_of_find?_eq_some hroute
        simp only [table, List.mem_cons, List.not_mem_nil, or_false] at hmem
        rcases hmem with rfl | rfl | rfl | rfl
        · exact login_plain hok
        · exact users_plain hok
        · exact messages_plain hok
        · exact logout_plain hok
    · cases hok
      exact staticFile_plain cfg w h req

end Answering

end Web
end ChatRoom
