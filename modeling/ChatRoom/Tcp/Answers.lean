import ChatRoom.Tcp.Sessions

/-!
# Answers to packets

A packet is handled without an exception if and only if the documents that the
handler looks into have the shape it expects: `json::parse` runs under a
handler, `json::value` does not.  A login that is handled is answered by a
single `MSG_LOGIN_ACK`, and a login that is refused changes nothing else.
-/

namespace ChatRoom
namespace Tcp

/-- The packet makes the handler look for a text where the document has none:
the document is not an object, or the member is not a string. -/
def Misshapen (J : JsonLib) (w : Chat) (conn : ConnId) (pkt : Packet) : Prop :=
  ∃ j, J.parse pkt.body = some j ∧
    ((pkt.type = MessageType.MSG_LOGIN.code ∧ (w.conns conn).state ≠ .AUTHENTICATED ∧
        ¬ j.TextMember "username") ∨
      (pkt.type = MessageType.MSG_CHAT.code ∧ (w.conns conn).state = .AUTHENTICATED ∧
        ¬ j.TextMember "content") ∨
      (pkt.type = MessageType.MSG_PRIVATE.code ∧ (w.conns conn).state = .AUTHENTICATED ∧
        ¬ (j.TextMember "to" ∧ j.TextMember "content")))

/-- The sender has been entered under a name that was free. -/
def EnteredBy (conn : ConnId) (w w' : Chat) : Prop :=
  ∃ name, w.env.users.lookup name = none ∧ w'.env.users = w.env.users.insert name conn ∧
    LoggedInAs w' conn name

/-- The packet is a `MSG_LOGIN_ACK` whose document has this `ok`, and the error of a refusal. -/
def IsAck (J : JsonLib) (ok : Bool) (err : String) (pkt : Packet) : Prop :=
  pkt.type = MessageType.MSG_LOGIN_ACK.code ∧
    ∃ members, pkt.body = J.dump (.obj members) ∧ members.lookup "ok" = some (.bool ok) ∧
      (ok = false → members.lookup "error" = some (.str err))

/-- The answer to a login: `sent` is what was appended to the output of the
sender, and among it is one `MSG_LOGIN_ACK`, with `ok` and `err`. -/
structure LoginAnswered (J : JsonLib) (conn : ConnId) (w w' : Chat) (sent : List Packet)
    (ok : Bool) (err : String) : Prop where
  output : (w'.conns conn).writeBuf.readable =
    (w.conns conn).writeBuf.readable ++ sent.flatMap encode
  answer : sent.filter (fun pkt => pkt.type = MessageType.MSG_LOGIN_ACK.code) =
    [ackPacket J ok err]
  document : IsAck J ok err (ackPacket J ok err)
  accepted : ok = true ↔ EnteredBy conn w w'
  refused : ok = false →
    w'.env.users = w.env.users ∧
      (w'.conns conn).state = (w.conns conn).state ∧
      (w'.conns conn).username = (w.conns conn).username ∧
      ∀ d, d ≠ conn → (w'.conns d).writeBuf = (w.conns d).writeBuf

section OneAnswer

variable {J : JsonLib} {w w' : Chat} {c : ConnId} {pkt : Packet}

/-- A single packet to one connection. -/
theorem packetsTo_singleton
    (c : ConnId) (pkt : Packet) :
    packetsTo c [(c, pkt)] = [pkt] := by
  simp [packetsTo]

theorem packetsTo_other
    {c d : ConnId} (h : d ≠ c) (pkt : Packet) :
    packetsTo d [(c, pkt)] = [] := by
  simp [packetsTo, h.symm]

theorem isAck_ackPacket
    (J : JsonLib) (ok : Bool) (err : String) :
    IsAck J ok err (ackPacket J ok err) := by
  cases ok with
  | true =>
      exact ⟨rfl, _, rfl, rfl, fun h => by cases h⟩
  | false =>
      exact ⟨rfl, _, rfl, by simp [List.lookup_cons], by simp⟩

/-- Sending does not enter anybody. -/
theorem not_enteredBy_of_users_eq
    (h : w'.env.users = w.env.users) :
    ¬ EnteredBy c w w' := by
  rintro ⟨name, hfree, hins, -⟩
  have hlookup := AList.lookup_insert (a := name) (b := c) w.env.users
  rw [← hins, h, hfree] at hlookup
  cases hlookup

/-- A login that returns has answered. -/
theorem handleLogin_answers
    (h : handleLogin J w c pkt = .ok w') :
    ∃ sent ok err, LoginAnswered J c w w' sent ok err := by
  rcases handleLogin_effect h with ⟨err, hout⟩ | ⟨name, out, hstate, hfree, hout, hacks⟩
  · have husers : w'.env.users = w.env.users := congrArg ChatEnv.users hout.env
    refine ⟨[ackPacket J false err], false, err, ?_, rfl, isAck_ackPacket J false err, ?_, ?_⟩
    · rw [hout.output c, packetsTo_singleton]
    · simpa using not_enteredBy_of_users_eq husers
    · intro _
      refine ⟨husers, hout.quiet.state c, hout.quiet.username c, ?_⟩
      intro d hd
      rw [hout.others d (packetsTo_other hd _)]
  · have hconn : ((loggedIn w c name).conns c) =
        { w.conns c with username := name, state := .AUTHENTICATED } :=
      Function.update_self _ _ _
    refine ⟨ackPacket J true "" :: packetsTo c out, true, "", ?_, ?_, isAck_ackPacket J true "",
      ?_, ?_⟩
    · rw [hout.output c, packetsTo_cons_self, hconn]
    · rw [List.filter_cons_of_pos (by simp [ackPacket]), List.filter_eq_nil_iff.mpr]
      intro pkt hpkt
      simpa using hacks _ (mem_packetsTo.mp hpkt)
    · simp only [true_iff]
      refine ⟨name, hfree, congrArg ChatEnv.users hout.env, ?_⟩
      rw [hout.quiet.loggedInAs, LoggedInAs, hconn]
      exact ⟨rfl, rfl⟩
    · intro hfalse
      cases hfalse

/-- A login returns unless the name in its document is not a text. -/
theorem handleLogin_returns_iff :
    (∃ w', handleLogin J w c pkt = .ok w') ↔
      (w.conns c).state = .AUTHENTICATED ∨
        ∀ j, J.parse pkt.body = some j → j.TextMember "username" := by
  unfold handleLogin
  by_cases hstate : (w.conns c).state = .AUTHENTICATED
  · simp [hstate]
  · simp only [hstate, if_false, false_or]
    cases J.parse pkt.body with
    | none =>
        simp
    | some j =>
        simp only [Option.some.injEq, forall_eq', ← Json.value_returns_iff ""]
        cases j.value "username" "" <;> simp [Except.map]

theorem handleChat_returns_iff :
    (∃ w', handleChat J w c pkt = .ok w') ↔
      (w.conns c).state ≠ .AUTHENTICATED ∨
        ∀ j, J.parse pkt.body = some j → j.TextMember "content" := by
  unfold handleChat
  by_cases hstate : (w.conns c).state = .AUTHENTICATED
  · simp only [hstate, ne_eq, not_true_eq_false, if_false, false_or]
    cases J.parse pkt.body with
    | none =>
        simp
    | some j =>
        simp only [Option.some.injEq, forall_eq', ← Json.value_returns_iff ""]
        cases j.value "content" "" <;> simp [Except.map]
  · simp [hstate]

theorem handlePrivate_returns_iff :
    (∃ w', handlePrivate J w c pkt = .ok w') ↔
      (w.conns c).state ≠ .AUTHENTICATED ∨
        ∀ j, J.parse pkt.body = some j → j.TextMember "to" ∧ j.TextMember "content" := by
  unfold handlePrivate
  by_cases hstate : (w.conns c).state = .AUTHENTICATED
  · simp only [hstate, ne_eq, not_true_eq_false, if_false, false_or]
    cases J.parse pkt.body with
    | none =>
        simp
    | some j =>
        simp only [Option.some.injEq, forall_eq', ← Json.value_returns_iff ""]
        cases j.value "to" "" <;> cases j.value "content" "" <;>
          simp [Except.map, Except.bind]
  · simp [hstate]

/-- In every state, for every connection and every packet: the packet is
handled without an exception, and a login is answered as described, if and only
if the packet is not misshapen. -/
theorem onPacket_answers_iff
    (J : JsonLib) (w : Chat) (c : ConnId) (pkt : Packet) :
    (∃ w', onPacket J (closeCallback J) w c pkt = .ok w' ∧
        (pkt.type = MessageType.MSG_LOGIN.code →
          ∃ sent ok err, LoginAnswered J c w w' sent ok err)) ↔
      ¬ Misshapen J w c pkt := by
  constructor
  · rintro ⟨w', hok, -⟩ ⟨j, hj, hlogin | hchat | hprivate⟩
    · obtain ⟨htype, hstate, hbad⟩ := hlogin
      simp only [onPacket, htype, MessageType.ofCode?_code] at hok
      rcases handleLogin_returns_iff.mp ⟨w', hok⟩ with h | h
      · exact hstate h
      · exact hbad (h j hj)
    · obtain ⟨htype, hstate, hbad⟩ := hchat
      simp only [onPacket, htype, MessageType.ofCode?_code] at hok
      rcases handleChat_returns_iff.mp ⟨w', hok⟩ with h | h
      · exact h hstate
      · exact hbad (h j hj)
    · obtain ⟨htype, hstate, hbad⟩ := hprivate
      simp only [onPacket, htype, MessageType.ofCode?_code] at hok
      rcases handlePrivate_returns_iff.mp ⟨w', hok⟩ with h | h
      · exact h hstate
      · exact hbad (h j hj)
  · intro hshape
    by_cases hlogin : pkt.type = MessageType.MSG_LOGIN.code
    · have hreturns : ∃ w', handleLogin J w c pkt = .ok w' := by
        rw [handleLogin_returns_iff, or_iff_not_imp_left]
        intro hstate j hj
        by_contra hbad
        exact hshape ⟨j, hj, .inl ⟨hlogin, hstate, hbad⟩⟩
      obtain ⟨w', hok⟩ := hreturns
      refine ⟨w', ?_, fun _ => handleLogin_answers hok⟩
      simp only [onPacket, hlogin, MessageType.ofCode?_code]
      exact hok
    · have hreturns : ∃ w', onPacket J (closeCallback J) w c pkt = .ok w' := by
        unfold onPacket
        split
        · next hcode =>
            exact absurd (MessageType.code_of_ofCode? hcode) hlogin
        · next hcode =>
            rw [handleChat_returns_iff, or_iff_not_imp_left]
            intro hstate j hj
            by_contra hbad
            exact hshape ⟨j, hj, .inr (.inl
              ⟨MessageType.code_of_ofCode? hcode, not_not.mp hstate, hbad⟩)⟩
        · next hcode =>
            rw [handlePrivate_returns_iff, or_iff_not_imp_left]
            intro hstate j hj
            by_contra hbad
            exact hshape ⟨j, hj, .inr (.inr
              ⟨MessageType.code_of_ofCode? hcode, not_not.mp hstate, hbad⟩)⟩
        all_goals
          exact ⟨_, rfl⟩
      obtain ⟨w', hok⟩ := hreturns
      exact ⟨w', hok, fun h => absurd h hlogin⟩

/-- A login whose document is a list. -/
def listLogin : Packet where
  type := MessageType.MSG_LOGIN.code
  body := bytes "[]"

def listJson : JsonLib :=
  JsonLib.ofTable [(listLogin.body, .arr [])]

/-- A connection that has just been accepted sends the packet: the handler
throws, and the exception ends the server. -/
theorem listLogin_ends_server :
    (∃ w, runServer listJson [.accept 5] = .ok w ∧ (w.conns 0).state = .CONNECTING ∧
      onPacket listJson (closeCallback listJson) w 0 listLogin = .error .typeError) ∧
      ∀ w, runServer listJson [.accept 5, arrive (encode listLogin)] ≠ .ok w := by
  constructor
  · obtain ⟨w, hrun, hw⟩ := Runs.exists_ok_of_any
      (runServer listJson [.accept 5])
      (fun w => (w.conns 0).state = .CONNECTING) (by decide +kernel)
    have hstate : (w.conns 0).state = .CONNECTING := of_decide_eq_true hw
    refine ⟨w, hrun, hstate, ?_⟩
    have hparse : listJson.parse listLogin.body = some (.arr []) := by
      simp [listJson, JsonLib.ofTable]
    have htype : listLogin.type = MessageType.MSG_LOGIN.code := rfl
    simp [onPacket, htype, MessageType.ofCode?_code, handleLogin, hstate, hparse, Json.value,
      Except.map]
  · intro w hrun
    have hnone : (runServer listJson [.accept 5, arrive (encode listLogin)]).toOption.isNone := by
      decide +kernel
    rw [hrun] at hnone
    cases hnone

end OneAnswer

end Tcp
end ChatRoom
