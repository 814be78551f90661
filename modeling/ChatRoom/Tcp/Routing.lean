import ChatRoom.Tcp.Wiring

/-!
# Where messages go

A chat message of a user goes once to every other user, a private message to the
user it names or, if there is none, back as a refusal (`messages_routed`).  The
sender is the name under which the connection is logged in; what a document says
under `from` is not read.
-/

namespace ChatRoom
namespace Tcp

/-- All members of an object are texts. -/
def TextMembers (members : List (String × Json)) : Prop :=
  ∀ key member, members.lookup key = some member → ∃ text, member = .str text

/-- The text under a key, or the empty text. -/
def textOf (members : List (String × Json)) (key : String) : String :=
  match members.lookup key with
  | some (.str text) => text
  | _ => ""

/-- A chat message as it is passed on. -/
def chatPacket (J : JsonLib) (content from_ : String) (now : Int) : Packet where
  type := MessageType.MSG_CHAT_BROAD.code
  body := J.dump (.obj [("content", .str content), ("from", .str from_), ("time", .int now)])

/-- A private message as it is passed on. -/
def privatePacket (J : JsonLib) (content from_ to_ : String) : Packet where
  type := MessageType.MSG_PRIVATE.code
  body := J.dump (.obj [("content", .str content), ("from", .str from_), ("to", .str to_)])

/-- The refusal of a private message to somebody who is not there. -/
def refusalPacket (J : JsonLib) : Packet where
  type := MessageType.MSG_LOGIN_ACK.code
  body := J.dump (.obj [("error", .str "对象用户不存在"), ("ok", .bool false)])

/-- `out` is what has been sent, and `expected` what each connection has got of it. -/
def Delivers (w w' : Chat) (expected : ConnId → List Packet) : Prop :=
  ∃ out, Sends w w' out ∧ ∀ d, packetsTo d out = expected d

section Documents

/-- With texts only, `value` is the text under the key. -/
theorem value_textOf
    {members : List (String × Json)} (hmembers : TextMembers members) (key : String) :
    (Json.obj members).value key "" = .ok (textOf members key) := by
  rw [Json.value, textOf]
  cases hmember : members.lookup key with
  | none =>
      rfl
  | some member =>
      obtain ⟨text, rfl⟩ := hmembers key member hmember
      rfl

/-- `value` looks at one member. -/
theorem value_congr
    {members members' : List (String × Json)} {key : String}
    (hkey : members'.lookup key = members.lookup key) :
    (Json.obj members').value key "" = (Json.obj members).value key "" := by
  rw [Json.value, Json.value, hkey]

end Documents

section Recipients

/-- Each connection has one name at most, so it is in the table once. -/
theorem nodup_recipients
    {w : Chat} (hsessions : Sessions w) :
    (recipients w.env.users).Nodup := by
  refine List.Nodup.map_on ?_ w.env.users.nodupKeys.nodup
  rintro ⟨name, c⟩ hc ⟨name', c'⟩ hc' rfl
  have hname := (hsessions.leaving c).name_unique (AList.mem_lookup_iff.mpr hc)
    (AList.mem_lookup_iff.mpr hc')
  rw [hname]

/-- A packet to each connection of a list without repetitions. -/
theorem packetsTo_map
    {cs : List ConnId} (hnodup : cs.Nodup) (pkt : Packet) (d : ConnId) :
    packetsTo d (cs.map fun c => (c, pkt)) = if d ∈ cs then [pkt] else [] := by
  induction cs with
  | nil =>
      rfl
  | cons c cs ih =>
      obtain ⟨hnew, hnodup⟩ := List.nodup_cons.mp hnodup
      rw [List.map_cons, packetsTo, List.filterMap_cons]
      by_cases hd : c = d
      · subst hd
        have hrest := ih hnodup
        rw [if_neg hnew, packetsTo] at hrest
        simp [hrest]
      · have hrest := ih hnodup
        rw [packetsTo] at hrest
        simp [hd, hrest, Ne.symm hd]

end Recipients

section Routing

variable {J : JsonLib} {w : Chat} {c : ConnId} {u : String} {pkt : Packet}
  {members : List (String × Json)}

/-- A chat message goes to every user on another connection. -/
theorem handleChat_delivers
    (hsessions : Sessions w) (huser : LoggedInAs w c u)
    (hbody : J.parse pkt.body = some (.obj members)) (hmembers : TextMembers members)
    (hcontent : textOf members "content" ≠ "") :
    ∃ w', handleChat J w c pkt = .ok w' ∧
      Delivers w w' fun d =>
        if d ∈ recipients w.env.users ∧ d ≠ c then
          [chatPacket J (textOf members "content") u w.now]
        else
          [] := by
  obtain ⟨w', hok, hsends⟩ := handleChat_spreads
    ⟨huser.1, hcontent, _, hbody, value_textOf hmembers "content"⟩
  refine ⟨w', hok, _, hsends, ?_⟩
  intro d
  rw [packetsTo_map ((nodup_recipients hsessions).filter _), huser.2]
  simp only [List.mem_filter, decide_eq_true_eq]
  rfl

/-- A private message goes to the connection of the user it names, or is refused. -/
theorem handlePrivate_eq
    (huser : LoggedInAs w c u) (hbody : J.parse pkt.body = some (.obj members))
    (hmembers : TextMembers members) :
    handlePrivate J w c pkt =
      .ok (match w.env.users.lookup (textOf members "to") with
        | none => sendAck J w c false "对象用户不存在"
        | some target =>
            send w target
              (privatePacket J (textOf members "content") u (textOf members "to"))) := by
  obtain ⟨hstate, rfl⟩ := huser
  cases htarget : w.env.users.lookup (textOf members "to") with
  | none =>
      simp [handlePrivate, hstate, hbody, value_textOf hmembers, Except.map, Except.bind,
        UserManager.get, htarget]
  | some target =>
      simp [handlePrivate, hstate, hbody, value_textOf hmembers, Except.map, Except.bind,
        UserManager.get, htarget, privatePacket]

theorem handlePrivate_routes
    (huser : LoggedInAs w c u) (hbody : J.parse pkt.body = some (.obj members))
    (hmembers : TextMembers members) :
    ∃ w', handlePrivate J w c pkt = .ok w' ∧
      Delivers w w' fun d =>
        match w.env.users.lookup (textOf members "to") with
        | some target =>
            if d = target then
              [privatePacket J (textOf members "content") u (textOf members "to")]
            else
              []
        | none => if d = c then [refusalPacket J] else [] := by
  refine ⟨_, handlePrivate_eq huser hbody hmembers, ?_⟩
  cases w.env.users.lookup (textOf members "to") with
  | none =>
      refine ⟨_, sendAck_sends J w c false _, ?_⟩
      intro d
      have hrefusal : ackPacket J false "对象用户不存在" = refusalPacket J := rfl
      exact (packetsTo_map (List.nodup_singleton c) _ d).trans (by simp [hrefusal])
  | some target =>
      refine ⟨_, send_sends w target _, ?_⟩
      intro d
      exact (packetsTo_map (List.nodup_singleton target) _ d).trans (by simp)

/-- The handlers read the members `username`, `content` and `to` of a document only. -/
theorem onPacket_congr
    {pkt' : Packet} {members' : List (String × Json)} (htype : pkt'.type = pkt.type)
    (hbody : J.parse pkt.body = some (.obj members))
    (hbody' : J.parse pkt'.body = some (.obj members'))
    (hkeys : ∀ key, key ≠ "from" → members'.lookup key = members.lookup key) :
    onPacket J (closeCallback J) w c pkt' = onPacket J (closeCallback J) w c pkt := by
  have husername := value_congr (hkeys "username" (by decide))
  have hcontent := value_congr (hkeys "content" (by decide))
  have hto := value_congr (hkeys "to" (by decide))
  rw [onPacket, onPacket, htype]
  simp only [handleLogin, handleChat, handlePrivate, hbody, hbody', husername, hcontent, hto]

/-- In every state the server reaches, for a packet of a user whose body is an object of texts:
a chat message that is not empty goes once to every other user and to nobody else; a private
message goes once to the user it names and to nobody else, or is refused by a single answer;
and the member `from` has no influence. -/
theorem messages_routed
    (hreached : Reached J w) (huser : LoggedInAs w c u)
    (hbody : J.parse pkt.body = some (.obj members)) (hmembers : TextMembers members) :
    (pkt.type = MessageType.MSG_CHAT.code → textOf members "content" ≠ "" →
      ∃ w', onPacket J (closeCallback J) w c pkt = .ok w' ∧
        Delivers w w' fun d =>
          if d ∈ recipients w.env.users ∧ d ≠ c then
            [chatPacket J (textOf members "content") u w.now]
          else
            []) ∧
      (pkt.type = MessageType.MSG_PRIVATE.code →
        ∃ w', onPacket J (closeCallback J) w c pkt = .ok w' ∧
          Delivers w w' fun d =>
            match w.env.users.lookup (textOf members "to") with
            | some target =>
                if d = target then
                  [privatePacket J (textOf members "content") u (textOf members "to")]
                else
                  []
            | none => if d = c then [refusalPacket J] else []) ∧
      ∀ pkt' members', pkt'.type = pkt.type → J.parse pkt'.body = some (.obj members') →
        (∀ key, key ≠ "from" → members'.lookup key = members.lookup key) →
        onPacket J (closeCallback J) w c pkt' = onPacket J (closeCallback J) w c pkt := by
  refine ⟨?_, ?_, ?_⟩
  · intro htype hcontent
    simp only [onPacket, htype, MessageType.ofCode?_code]
    exact handleChat_delivers hreached.wired.1 huser hbody hmembers hcontent
  · intro htype
    simp only [onPacket, htype, MessageType.ofCode?_code]
    exact handlePrivate_routes huser hbody hmembers
  · intro pkt' members' htype hbody' hkeys
    exact onPacket_congr htype hbody hbody' hkeys

/-- A user writes to itself, under a false name. -/
def selfPacket : Packet where
  type := MessageType.MSG_PRIVATE.code
  body := bytes "\x7b\"content\":\"hi\",\"from\":\"b\",\"to\":\"a\"\x7d"

def selfMembers : List (String × Json) :=
  [("content", .str "hi"), ("from", .str "b"), ("to", .str "a")]

theorem textMembers_self :
    TextMembers selfMembers := by
  intro key member hmember
  simp only [selfMembers, List.lookup_cons, List.lookup_nil] at hmember
  split at hmember
  · exact ⟨_, (Option.some.inj hmember).symm⟩
  · split at hmember
    · exact ⟨_, (Option.some.inj hmember).symm⟩
    · split at hmember
      · exact ⟨_, (Option.some.inj hmember).symm⟩
      · cases hmember

def selfJson : JsonLib :=
  JsonLib.ofTable [(loginPacket.body, .obj [("username", .str "a")]),
    (selfPacket.body, .obj selfMembers)]

theorem messages_routed_self :
    ∃ w w', runServer selfJson loginRun = .ok w ∧ LoggedInAs w 0 "a" ∧
      onPacket selfJson (closeCallback selfJson) w 0 selfPacket = .ok w' ∧
        Delivers w w' fun d => if d = 0 then [privatePacket selfJson "hi" "a" "a"] else [] := by
  obtain ⟨w, hrun, hw⟩ := Runs.exists_ok_of_any
    (runServer selfJson loginRun)
    (fun w => LoggedInAs w 0 "a" ∧ w.env.users.lookup "a" = some 0) (by decide +kernel)
  obtain ⟨huser, htarget⟩ := of_decide_eq_true hw
  have hbody : selfJson.parse selfPacket.body = some (.obj selfMembers) := by
    have hne : (selfPacket.body == loginPacket.body) = false := by decide +kernel
    simp only [selfJson, JsonLib.ofTable, List.lookup_cons, hne, beq_self_eq_true]
  obtain ⟨w', hok, hdelivers⟩ :=
    (messages_routed (.between hrun) huser hbody textMembers_self).2.1 rfl
  have hto : textOf selfMembers "to" = "a" := by decide
  have hcontent : textOf selfMembers "content" = "hi" := by decide
  rw [hto, hcontent, htarget] at hdelivers
  exact ⟨w, w', hrun, huser, hok, hdelivers⟩

end Routing

end Tcp
end ChatRoom
