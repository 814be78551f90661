import ChatRoom.Web.Dispatch

/-!
# One response per request

A request is handled without an exception if and only if the document that a
route looks into has the shape it expects.  A request that is handled is
answered with exactly one response on its own connection, and one that is
answered with an error leaves the room and the tokens as they were.
-/

namespace ChatRoom
namespace Web

open Http Routes HttpServer

/-- The responses given to `HttpConnection::send` so far. -/
def responses (w : World) : List (HttpId × HttpResponse) :=
  w.trace.filterMap fun
    | .response h resp => some (h, resp)
    | _ => none

/-- The request makes a route look for a text where the document of the body has
none: the document is not an object, or the member is not a string. -/
def MisshapenBody (J : JsonLib) (w : World) (req : HttpRequest) : Prop :=
  req.method = bytes "POST" ∧
    ∃ j, J.parse req.body = some j ∧
      (bytes "/api/login" <+: req.path ∧ ¬ j.TextMember "username" ∨
        bytes "/api/messages" <+: req.path ∧ TokenAccepted J w req ∧ ¬ j.TextMember "content")

/-- The connection `h` got one response and no other connection got any, and an
error left the room and the tokens unchanged. -/
structure Responded (h : HttpId) (w w' : World) (resp : HttpResponse) : Prop where
  sent : responses w' = responses w ++ [(h, resp)]
  output : (w'.https h).writeBuf.readable = (w.https h).writeBuf.readable ++ resp.toString
  others : ∀ h', h' ≠ h → w'.https h' = w.https h'
  failed : 400 ≤ resp.statusCode → w'.room = w.room ∧ w'.tokens = w.tokens

section Output

variable {cfg : Config} {w w' : World} {h : HttpId} {req : HttpRequest} {resp : HttpResponse}

/-- Whether or not the connection was writing, `send` leaves it writing. -/
theorem https_send
    (w : World) (h : HttpId) (resp : HttpResponse) :
    (HttpConnection.send w h resp).https =
      Function.update w.https h
        { w.https h with
          writeBuf := (w.https h).writeBuf.append resp.toString
          closeAfterWrite := (w.https h).closeAfterWrite || !resp.keepAlive
          writing := true } := by
  by_cases hw : (w.https h).writing
  · simp [HttpConnection.send, hw, World.setHttp, World.note]
  · simp [HttpConnection.send, hw, World.setHttp, World.note, World.modifyFd]

theorem trace_send
    (w : World) (h : HttpId) (resp : HttpResponse) :
    (HttpConnection.send w h resp).trace = w.trace ++ [.response h resp] := by
  by_cases hw : (w.https h).writing <;>
    simp [HttpConnection.send, hw, World.setHttp, World.note, World.modifyFd]

theorem room_send
    (w : World) (h : HttpId) (resp : HttpResponse) :
    (HttpConnection.send w h resp).room = w.room ∧
      (HttpConnection.send w h resp).tokens = w.tokens := by
  by_cases hw : (w.https h).writing <;>
    simp [HttpConnection.send, hw, World.setHttp, World.note, World.modifyFd]

/-- Queueing a frame concerns the WebSocket connections only. -/
theorem queue_frame
    (w : World) (x : WsId) (frame : Bytes) :
    (WsConnection.queue w x frame).https = w.https ∧
      (WsConnection.queue w x frame).trace = w.trace := by
  unfold WsConnection.queue
  dsimp only
  split
  · exact ⟨rfl, rfl⟩
  · exact ⟨rfl, rfl⟩

theorem broadcast_frame
    (J : JsonLib) (w : World) (m : Message) :
    (WsHub.broadcast J w m).https = w.https ∧ (WsHub.broadcast J w m).trace = w.trace := by
  unfold WsHub.broadcast
  generalize w.hub.elems = xs
  induction xs generalizing w with
  | nil =>
      exact ⟨rfl, rfl⟩
  | cons x xs ih =>
      obtain ⟨hhttps, htrace⟩ := ih (w :=
        if (w.wss x).state = .ACTIVE then
          WsConnection.sendText w x (J.dump (WsHub.wsJson m))
        else
          w)
      rw [List.foldl_cons, hhttps, htrace]
      unfold WsConnection.sendText
      split
      · split
        · exact ⟨rfl, rfl⟩
        · exact queue_frame w x _
      · exact ⟨rfl, rfl⟩

/-- Before the response is sent, no connection has any new output. -/
theorem RequestEffect.output
    {w₁ : World} (heff : RequestEffect cfg w h req w₁ resp) :
    (w₁.https h).writeBuf = (w.https h).writeBuf ∧ (∀ h', h' ≠ h → w₁.https h' = w.https h') ∧
      responses w₁ = responses w := by
  cases heff with
  | nothing =>
      exact ⟨rfl, fun _ _ => rfl, rfl⟩
  | login u =>
      exact ⟨rfl, fun _ _ => rfl, by simp [responses, loggedIn, World.note]⟩
  | logout =>
      exact ⟨rfl, fun _ _ => rfl, by simp [responses, loggedOut, World.note]⟩
  | post m =>
      obtain ⟨hhttps, htrace⟩ := broadcast_frame cfg.json
        { w.note (.message m (.request (presentedToken cfg.json req)) w.room.users) with
          room := w.room.push m } m
      refine ⟨?_, ?_, ?_⟩
      · rw [WsHub.addMessage, hhttps]
        rfl
      · intro h' _
        rw [WsHub.addMessage, hhttps]
        rfl
      · rw [responses, WsHub.addMessage, htrace]
        simp [responses, World.note]
  | upgrade tok =>
      refine ⟨?_, ?_, ?_⟩
      · simp [markedUpgraded, HttpConnection.markUpgraded, World.setHttp, World.note]
      · intro h' hne
        simp [markedUpgraded, HttpConnection.markUpgraded, World.setHttp, World.note, hne]
      · simp [responses, markedUpgraded, HttpConnection.markUpgraded, World.setHttp, World.note]

/-- A request leaves the unread bytes and the state of its connection alone. -/
theorem RequestEffect.input
    {w₁ : World} (heff : RequestEffect cfg w h req w₁ resp) :
    (w₁.https h).readBuf = (w.https h).readBuf ∧ (w₁.https h).state = (w.https h).state := by
  cases heff with
  | nothing | login | logout =>
      exact ⟨rfl, rfl⟩
  | post m =>
      have hhttps := (broadcast_frame cfg.json
        { w.note (.message m (.request (presentedToken cfg.json req)) w.room.users) with
          room := w.room.push m } m).1
      rw [WsHub.addMessage, hhttps]
      exact ⟨rfl, rfl⟩
  | upgrade tok =>
      simp [markedUpgraded, HttpConnection.markUpgraded, World.setHttp, World.note]

theorem dispatch_keeps
    (hok : HttpServer.dispatch cfg w h req = .ok w') :
    (w'.https h).readBuf = (w.https h).readBuf ∧ (w'.https h).state = (w.https h).state := by
  obtain ⟨resp, w₁, heff, rfl⟩ := dispatch_handled hok
  rw [https_send, Function.update_self]
  exact heff.input

/-- Only a request that is not answered with an error has an effect. -/
theorem RequestEffect.unchanged
    {w₁ : World} (heff : RequestEffect cfg w h req w₁ resp) (hstatus : 400 ≤ resp.statusCode) :
    w₁ = w := by
  cases heff with
  | nothing =>
      rfl
  | login | logout | post | upgrade =>
      omega

theorem Handled.responded
    (hw : Handled cfg w h req w' resp) :
    Responded h w w' resp := by
  obtain ⟨w₁, heff, rfl⟩ := hw
  obtain ⟨hbuf, hothers, hresponses⟩ := heff.output
  constructor
  · rw [← hresponses, responses, trace_send, List.filterMap_append]
    rfl
  · rw [https_send, Function.update_self]
    simp only [Buffer.readable_append, hbuf]
  · intro h' hne
    rw [https_send, Function.update_of_ne hne]
    exact hothers h' hne
  · intro hstatus
    have hsame := heff.unchanged hstatus
    subst hsame
    exact room_send _ h resp

end Output

section Returns

variable {cfg : Config} {w : World} {h : HttpId} {req : HttpRequest}

theorem login_returns_iff
    {J : JsonLib} :
    (∃ w', login J w h req = .ok w') ↔
      req.method ≠ bytes "POST" ∨
        ∀ j, J.parse req.body = some j → j.TextMember "username" := by
  unfold login
  by_cases hmethod : req.method = bytes "POST"
  · simp only [hmethod, ne_eq, not_true_eq_false, if_false, false_or]
    cases J.parse req.body with
    | none =>
        simp
    | some j =>
        simp only [Option.some.injEq, forall_eq', ← Json.value_returns_iff ""]
        cases j.value "username" "" <;> simp [Except.map]
  · simp [hmethod]

theorem users_returns
    {J : JsonLib} :
    ∃ w', users J w h req = .ok w' := by
  unfold users
  split
  · exact ⟨_, rfl⟩
  · exact ⟨_, rfl⟩

theorem messages_returns_iff
    {J : JsonLib} :
    (∃ w', messages J w h req = .ok w') ↔
      ¬ TokenAccepted J w req ∨ req.method ≠ bytes "POST" ∨
        ∀ j, J.parse req.body = some j → j.TextMember "content" := by
  unfold messages
  by_cases htoken : TokenAccepted J w req
  · rw [requireToken_accepts htoken]
    simp only [htoken, not_true_eq_false, false_or]
    by_cases hmethod : req.method = bytes "POST"
    · have hget : ¬ bytes "POST" = bytes "GET" := by
        decide
      simp only [hmethod, hget, ne_eq, not_true_eq_false, if_true, if_false, false_or]
      cases J.parse req.body with
      | none =>
          simp
      | some j =>
          simp only [Option.some.injEq, forall_eq', ← Json.value_returns_iff ""]
          cases j.value "content" "" <;> simp [Except.map]
    · simp only [hmethod, ne_eq, not_false_eq_true, true_or, if_false, iff_true]
      split
      · exact ⟨_, rfl⟩
      · exact ⟨_, rfl⟩
  · obtain ⟨resp, heq⟩ := requireToken_rejects (h := h) htoken
    simp [heq, htoken]

theorem logout_returns
    {J : JsonLib} :
    ∃ w', logout J w h req = .ok w' := by
  unfold logout
  split
  · exact ⟨_, rfl⟩
  · exact ⟨_, rfl⟩

/-- Two prefixes of one path are comparable. -/
theorem not_prefix_of_prefix
    {a b path : Bytes} (hb : b <+: path) (hab : ¬ a <+: b) (hba : ¬ b <+: a) :
    a.isPrefixOf path = false := by
  rw [Bool.eq_false_iff, ne_eq, List.isPrefixOf_iff_prefix]
  intro ha
  rcases List.prefix_or_prefix_of_prefix ha hb with h | h
  · exact hab h
  · exact hba h

theorem find_login
    (J : JsonLib) {path : Bytes} (hpath : bytes "/api/login" <+: path) :
    (table J).find? (fun route => route.1.isPrefixOf path) =
      some (bytes "/api/login", login J) := by
  have hpre : (bytes "/api/login").isPrefixOf path = true :=
    List.isPrefixOf_iff_prefix.mpr hpath
  simp only [table, List.find?_cons, hpre]

theorem find_messages
    (J : JsonLib) {path : Bytes} (hpath : bytes "/api/messages" <+: path) :
    (table J).find? (fun route => route.1.isPrefixOf path) =
      some (bytes "/api/messages", messages J) := by
  have hlogin : (bytes "/api/login").isPrefixOf path = false :=
    not_prefix_of_prefix hpath (by decide) (by decide)
  have husers : (bytes "/api/users").isPrefixOf path = false :=
    not_prefix_of_prefix hpath (by decide) (by decide)
  have hpre : (bytes "/api/messages").isPrefixOf path = true :=
    List.isPrefixOf_iff_prefix.mpr hpath
  simp only [table, List.find?_cons, hlogin, husers, hpre]

end Returns

section OneResponse

variable {cfg : Config} {w : World} {h : HttpId} {req : HttpRequest}

theorem isUpgrade_method
    (hup : isUpgrade req = true) :
    req.method = bytes "GET" := by
  unfold isUpgrade at hup
  simp only [decide_eq_true_eq] at hup
  exact hup.1

/-- For every state and every request: the request is handled without an
exception, with exactly one response, and without an effect if the response is
an error, if and only if the body is not misshapen for its route. -/
theorem dispatch_responds_iff
    (cfg : Config) (w : World) (h : HttpId) (req : HttpRequest) :
    (∃ w' resp, dispatch cfg w h req = .ok w' ∧ Responded h w w' resp) ↔
      ¬ MisshapenBody cfg.json w req := by
  have hreduce : (∃ w' resp, dispatch cfg w h req = .ok w' ∧ Responded h w w' resp) ↔
      ∃ w', dispatch cfg w h req = .ok w' := by
    constructor
    · rintro ⟨w', resp, hok, -⟩
      exact ⟨w', hok⟩
    · rintro ⟨w', hok⟩
      obtain ⟨resp, hhandled⟩ := dispatch_handled hok
      exact ⟨w', resp, hok, hhandled.responded⟩
  rw [hreduce]
  unfold dispatch
  constructor
  · rintro ⟨w', hok⟩ ⟨hmethod, j, hj, hcase⟩
    have hup : ¬ isUpgrade req = true := by
      intro hup
      rw [isUpgrade_method hup] at hmethod
      exact absurd hmethod (by decide)
    rw [if_neg hup] at hok
    rcases hcase with ⟨hpath, hbad⟩ | ⟨hpath, htoken, hbad⟩
    · rw [find_login cfg.json hpath] at hok
      rcases login_returns_iff.mp ⟨w', hok⟩ with h | h
      · exact h hmethod
      · exact hbad (h j hj)
    · rw [find_messages cfg.json hpath] at hok
      rcases messages_returns_iff.mp ⟨w', hok⟩ with h | h | h
      · exact h htoken
      · exact h hmethod
      · exact hbad (h j hj)
  · intro hshape
    split
    · exact ⟨_, rfl⟩
    · split
      · next route hroute =>
          have hpre : route.1.isPrefixOf req.path = true := by
            simpa using List.find?_some hroute
          have hpath := List.isPrefixOf_iff_prefix.mp hpre
          have hmem := List.mem_of_find?_eq_some hroute
          simp only [table, List.mem_cons, List.not_mem_nil, or_false] at hmem
          rcases hmem with rfl | rfl | rfl | rfl
          · rw [login_returns_iff, or_iff_not_imp_left]
            intro hmethod j hj
            by_contra hbad
            exact hshape ⟨not_not.mp hmethod, j, hj, .inl ⟨hpath, hbad⟩⟩
          · exact users_returns
          · rw [messages_returns_iff, or_iff_not_imp_left, or_iff_not_imp_left]
            intro htoken hmethod j hj
            by_contra hbad
            exact hshape ⟨not_not.mp hmethod, j, hj, .inr ⟨hpath, not_not.mp htoken, hbad⟩⟩
          · exact logout_returns
      · exact ⟨_, rfl⟩

/-- A login whose body is a number. -/
def numberLogin : Bytes :=
  bytes "POST /api/login HTTP/1.1\r\nContent-Length: 1\r\n\r\n7"

def numberConfig : Config where
  json := JsonLib.ofTable [(bytes "7", .int 7)]
  webroot := bytes "src/frontend"
  configured := true

/-- The request is complete, and its handler throws. -/
theorem numberLogin_throws :
    ∃ req buf, HttpRequest.new.parse (Buffer.new.append numberLogin) = (true, req, buf) ∧
      dispatch numberConfig World.init 0 req = .error .typeError ∧
        ¬ ∃ w' resp, dispatch numberConfig World.init 0 req = .ok w' ∧
          Responded 0 World.init w' resp := by
  have hcomplete : (HttpRequest.new.parse (Buffer.new.append numberLogin)).1 = true := by
    decide +kernel
  have hmethod : (HttpRequest.new.parse (Buffer.new.append numberLogin)).2.1.method =
      bytes "POST" := by
    decide +kernel
  have hpath : (HttpRequest.new.parse (Buffer.new.append numberLogin)).2.1.path =
      bytes "/api/login" := by
    decide +kernel
  have hbody : (HttpRequest.new.parse (Buffer.new.append numberLogin)).2.1.body =
      bytes "7" := by
    decide +kernel
  generalize HttpRequest.new.parse (Buffer.new.append numberLogin) = result at *
  obtain ⟨complete, req, buf⟩ := result
  dsimp only at hcomplete hmethod hpath hbody
  have hup : ¬ isUpgrade req = true := by
    intro hup
    rw [isUpgrade_method hup] at hmethod
    exact absurd hmethod (by decide)
  have hparse : numberConfig.json.parse req.body = some (.int 7) := by
    rw [hbody]
    simp [numberConfig, JsonLib.ofTable]
  have herror : dispatch numberConfig World.init 0 req = .error .typeError := by
    have hprefix : bytes "/api/login" <+: req.path := by
      rw [hpath]
    rw [dispatch, if_neg hup, find_login numberConfig.json hprefix]
    simp [login, hmethod, hparse, Json.value, Except.map]
  refine ⟨req, buf, by rw [hcomplete], herror, ?_⟩
  rintro ⟨w', resp, hok, -⟩
  rw [herror] at hok
  cases hok

end OneResponse

end Web
end ChatRoom
