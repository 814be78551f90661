import ChatRoom.Web.Provenance

/-!
# Speaking after a logout

`/api/messages` looks the token up at every request, so it only speaks for users
who are logged in.  A WebSocket connection keeps the name under which it was
upgraded, and its frames are not checked again: after a logout it goes on
speaking under the name (`logout_chat_speaks`).

As long as no chat message arrives on a connection whose token has been revoked,
every message comes from a user of the room, and from the token of the user's
last login.
-/

namespace ChatRoom
namespace Web

open Runs

/-- The token with which the socket of a connection was upgraded still belongs to
the name of the connection. -/
def TokenHeld (s : Sessions) (x : WsId) : Prop :=
  ∃ tok ∈ (lastUpgrade s.history (s.sockets (s.ws x).fd)).map Prod.fst,
    s.tokens.tok2user.lookup tok = some (s.ws x).username

instance (s : Sessions) (x : WsId) : Decidable (TokenHeld s x) :=
  match h : (lastUpgrade s.history (s.sockets (s.ws x).fd)).map Prod.fst with
  | none => .isFalse (by rintro ⟨tok, htok, -⟩; rw [h] at htok; cases htok)
  | some tok =>
      decidable_of_iff (s.tokens.tok2user.lookup tok = some (s.ws x).username)
        (by unfold TokenHeld; rw [h]; simp)

/-- A connection that reads a chat message still has its token. -/
def ChatsWhileHeld (cfg : Config) (w : World) (e : Event) : Prop :=
  ∀ x, Chats cfg w x e → TokenHeld w.sessions x

/-- The token for which a source speaks. -/
def Source.token (past : List Obs) : Source → Option Bytes
  | .request tok => some tok
  | .frame socket => (lastUpgrade past socket).map Prod.fst

/-- A message comes from a user of the room, and from the token of the user's last
login. -/
def Entitled (past : List Obs) : Obs → Prop
  | .message m source users =>
      m.from_ ∈ users ∧ ∃ tok, source.token past = some tok ∧ loginOf past m.from_ = some tok
  | _ => True

section Preservation

variable {s s' : Sessions}

/-- What is said does not revoke anything. -/
theorem TokenHeld.say
    {m : Message} {source : Source} {x : WsId} (h : TokenHeld s x) :
    TokenHeld (s.say m source) x := by
  have hhistory (socket : SocketId) :
      lastUpgrade (s.say m source).history socket = lastUpgrade s.history socket :=
    lastUpgrade_append rfl
  unfold TokenHeld
  rw [hhistory]
  exact h

/-- A valid token belongs to a user and was issued at the user's last login. -/
theorem TokensAgree.entitled
    (h : TokensAgree s) {tok : Bytes} {u : String}
    (hvalid : s.tokens.tok2user.lookup tok = some u) :
    u ∈ s.users ∧ loginOf s.history u = some tok := by
  have hlogin := (h.valid tok u hvalid).2
  exact ⟨(h.online u).mpr (by rw [hlogin]; rfl), hlogin⟩

theorem entitled_act
    (hact : Act TokenHeld s s') (hagree : TokensAgree s) (h : Justified Entitled s.history) :
    Justified Entitled s'.history := by
  cases hact with
  | talk htalk =>
      cases htalk with
      | login | logout | upgrade =>
          exact h.snoc trivial
      | post tok m hvalid hfrom =>
          refine h.snoc ?_
          have hlookup := lookup_ne_empty hvalid
          rw [← hfrom] at hlookup
          obtain ⟨huser, hlogin⟩ := hagree.entitled hlookup
          exact ⟨huser, tok, rfl, hlogin⟩
      | speak fd x m hregistered hfrom hheld =>
          refine h.snoc ?_
          obtain ⟨tok, htok, hlookup⟩ := hheld
          rw [← hfrom] at hlookup
          obtain ⟨huser, hlogin⟩ := hagree.entitled hlookup
          exact ⟨huser, tok, htok, hlogin⟩
  | handOver =>
      exact h.snoc trivial
  | forget | closeHttp | closeWs | accept =>
      exact h

/-- A step in which nobody speaks with a revoked token. -/
theorem entitled_step
    {cfg : Config} {w w' : World} {e : Event} (hheld : ChatsWhileHeld cfg w e)
    (hstep : step cfg w e = .ok w')
    (h : TokensAgree w.sessions ∧ Justified Entitled w.sessions.history) :
    TokensAgree w'.sessions ∧ Justified Entitled w'.sessions.history := by
  have hacts : Acts TokenHeld w.sessions w'.sessions :=
    step_acts (fun _ _ _ _ hx => hx.say) hheld hstep
  refine Acts.keeps (I := fun s => TokensAgree s ∧ Justified Entitled s.history) ?_ hacts h
  rintro s s' hact ⟨hagree, hentitled⟩
  exact ⟨tokensAgree_act hact hagree, entitled_act hact hagree hentitled⟩

/-- The history of the server is entitled if that of the sessions is. -/
theorem entitled_trace
    {w : World} (h : Justified Entitled w.sessions.history) :
    Justified Entitled w.trace := by
  refine h.of_filter ?_ ?_
  · intro past o ho hentitled
    cases o with
    | message m source users =>
        cases source with
        | request tok =>
            simpa only [Entitled, Source.token, loginOf_filter ofSession_of_ofLedger]
              using hentitled
        | frame socket =>
            simpa only [Entitled, Source.token, lastUpgrade_filter,
              loginOf_filter ofSession_of_ofLedger] using hentitled
    | login | logout | upgrade | adopt | response | text | wrote =>
        trivial
  · intro past o ho
    cases o with
    | message | login | logout | upgrade | adopt =>
        cases ho
    | response | text | wrote =>
        trivial

end Preservation

section LoggedInSpeakers

/-- As long as no chat message arrives on a connection whose token has been
revoked, every message is from a user of the room, by the token of the user's
last login, and a user who has logged out does not speak before logging in
again. -/
theorem messages_from_users
    {cfg : Config} {events : List Event} {w : World}
    (hheld : Meets (ChatsWhileHeld cfg) (step cfg) World.init events)
    (hrun : runServer cfg events = .ok w)
    (past : List Obs) (m : Message) (source : Source) (users : UnorderedSet String)
    (future : List Obs) (htrace : w.trace = past ++ .message m source users :: future) :
    m.from_ ∈ users ∧
      (∃ tok, source.token past = some tok ∧ loginOf past m.from_ = some tok) ∧
        ∀ before tok after, past = before ++ .logout m.from_ tok :: after →
          ∃ tok', .login m.from_ tok' ∈ after := by
  have hkept : TokensAgree w.sessions ∧ Justified Entitled w.sessions.history := by
    refine run_invariant_of_meets
      (I := fun w => TokensAgree w.sessions ∧ Justified Entitled w.sessions.history) ?_
      ⟨tokensAgree_init, justified_nil⟩ hheld hrun
    intro w e w' h hC hstep
    exact entitled_step hC hstep h
  obtain ⟨huser, tok, htok, hlogin⟩ := entitled_trace hkept.2 past _ future htrace
  refine ⟨huser, ⟨tok, htok, hlogin⟩, ?_⟩
  rintro before tok' after rfl
  exact ⟨tok, login_mem_of_logout hlogin⟩

/-- A test that is stronger than the condition: whoever has something to read still
has its token. -/
def heldTest (w : World) : Event → Bool
  | .ready fd _ _ _ =>
      match w.reactor.contexts fd with
      | some (.ws x) => decide (TokenHeld w.sessions x)
      | _ => true
  | _ => true

theorem chatsWhileHeld_of_heldTest
    (cfg : Config) (w : World) (e : Event) (h : heldTest w e = true) :
    ChatsWhileHeld cfg w e := by
  intro x hchats
  cases e with
  | ready fd events input sends =>
      rw [heldTest, hchats.1] at h
      exact of_decide_eq_true h
  | accept | clock | files =>
      cases hchats

theorem chatRun_held :
    Meets (ChatsWhileHeld sampleConfig) (step sampleConfig) World.init chatRun :=
  meets_of_test (chatsWhileHeld_of_heldTest sampleConfig) (by decide +kernel)

theorem messages_from_users_chatRun :
    ∃ w past m source users future, runServer sampleConfig chatRun = .ok w ∧
      w.trace = past ++ .message m source users :: future ∧ m.from_ ∈ users ∧
        ∃ tok, source.token past = some tok ∧ loginOf past m.from_ = some tok := by
  obtain ⟨w, hrun, past, m, source, users, future, htrace, -⟩ := chatRun_speaks
  obtain ⟨huser, htoken, -⟩ :=
    messages_from_users chatRun_held hrun past m source users future htrace
  exact ⟨w, past, m, source, users, future, hrun, htrace, huser, htoken⟩

def logoutRequest : Bytes :=
  bytes "POST /api/logout?token=tok_0000000000000001 HTTP/1.1\r\n\r\n"

/-- The user of an open WebSocket connection logs out. -/
def logoutChatRun : List Event :=
  loginRun ++ [writable 5, .accept 6, arrive 6 upgradeRequest, writable 6,
    .accept 7, arrive 7 logoutRequest, arrive 6 (clientText chatBody)]

/-- The users at the time of a message. -/
def Obs.usersAtMessage? : Obs → Option (List String)
  | .message _ _ users => some users.elems
  | _ => none

/-- A logged-out user speaks, while nobody is in the room. -/
theorem logout_chat_speaks :
    ∃ w, runServer sampleConfig logoutChatRun = .ok w ∧
      ¬ ∀ past m source users future, w.trace = past ++ .message m source users :: future →
        m.from_ ∈ users := by
  obtain ⟨w, hrun, hw⟩ := exists_ok_of_any
    (runServer sampleConfig logoutChatRun)
    (fun w => some [] ∈ w.trace.map Obs.usersAtMessage?)
    (by decide +kernel)
  refine ⟨w, hrun, ?_⟩
  intro hall
  obtain ⟨o, ho, husers⟩ := List.mem_map.mp (of_decide_eq_true hw)
  obtain ⟨past, future, htrace⟩ := List.append_of_mem ho
  cases o with
  | message m source users =>
      have huser := hall past m source users future htrace
      rw [← UnorderedSet.mem_elems, Option.some.inj husers] at huser
      cases huser
  | login | logout | upgrade | adopt | response | text | wrote =>
      cases husers

end LoggedInSpeakers

end Web
end ChatRoom
