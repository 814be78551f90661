import ChatRoom.Common.Text
import ChatRoom.Protocol.RoundTrip
import ChatRoom.Tcp.Sessions

/-!
# What the server sends and the length limit

`decode` rejects a body of more than `MAX_BODY_LENGTH - 1` bytes, `encode` writes
one of any length, and the server builds the bodies it sends anew: it adds the
sender and the time to a message, a phrase to a name, and it lists all users.  So
a packet within the limit may make the server send one that is not.
`WithinLimit` says when it does not, in terms of the texts in the packet and of
the names in the table of users.
-/

namespace ChatRoom
namespace Tcp

open Incremental

/-- The packet is within the limit, and `decode` accepts its encoding. -/
def Decodable (pkt : Packet) : Prop :=
  pkt.body.length ≤ MAX_BODY_LENGTH - 1 ∧
    decode (encode pkt) = { consumed := (encode pkt).length, packet := pkt, ok := true }

/-- The length of the body of a `MSG_CHAT_BROAD`. -/
def chatLength (content sender : String) (now : Int) : Nat :=
  28 + Json.dumpedLength content + Json.dumpedLength sender + Json.digitsLength now

/-- The length of the body of a `MSG_PRIVATE`. -/
def privateLength (content sender to_ : String) : Nat :=
  26 + Json.dumpedLength content + Json.dumpedLength sender + Json.dumpedLength to_

/-- The length of the body of a `MSG_SYSTEM`. -/
def systemLength (text : String) (now : Int) : Nat :=
  20 + Json.dumpedLength text + Json.digitsLength now

/-- The length of the body of a `MSG_USER_LIST`. -/
def userListLength (names : List String) : Nat :=
  12 + (names.map Json.dumpedLength).sum + (names.length - 1)

/-- An announcement to these users is within the limit, if anybody gets it. -/
def Announceable (now : Int) (users : UserTable) (text : String) : Prop :=
  users.entries ≠ [] →
    systemLength text now ≤ MAX_BODY_LENGTH - 1 ∧
      userListLength users.keys ≤ MAX_BODY_LENGTH - 1

/-- The packets that the server has to send because of this one are within the limit. -/
def WithinLimit (J : JsonLib) (w : Chat) (conn : ConnId) (pkt : Packet) : Prop :=
  match MessageType.ofCode? pkt.type with
  | some .MSG_LOGIN =>
      ∀ username, LogsInAs J w conn pkt username →
        Announceable w.now (w.env.users.insert username conn) (username ++ "上线")
  | some .MSG_CHAT =>
      ∀ content, Says J w conn pkt content → (∃ c ∈ recipients w.env.users, c ≠ conn) →
        chatLength content (w.conns conn).username w.now ≤ MAX_BODY_LENGTH - 1
  | some .MSG_PRIVATE =>
      ∀ to_ content, Tells J w conn pkt to_ content →
        privateLength content (w.conns conn).username to_ ≤ MAX_BODY_LENGTH - 1
  | some .MSG_USER_LIST =>
      userListLength w.env.users.keys ≤ MAX_BODY_LENGTH - 1
  | some .MSG_LOGOUT =>
      (w.conns conn).state = .AUTHENTICATED →
        Announceable w.now (UserManager.removeFirst w.env.users conn)
          ((w.conns conn).username ++ "离线")
  | _ => True

/-- A packet of the connection is handled: `onPacket` with the callbacks of `main`. -/
def receive (J : JsonLib) (w : Chat) (call : ConnId × Packet) : Except Exn Chat :=
  onPacket J (closeCallback J) w call.1 call.2

/-- The packet that was given to `send`. -/
def Obs.sentPacket? : Obs → Option Packet
  | .sent _ pkt => some pkt
  | _ => none

/-- The packets given to `send` between two states. -/
def sentBetween (w w' : Chat) : List Packet :=
  (w'.trace.drop w.trace.length).filterMap Obs.sentPacket?

/-- The packets given to `send` during a computation.  The handlers look into the
documents before they send anything, so a handler that throws has sent nothing. -/
def sentDuring (w : Chat) : Except Exn Chat → List Packet
  | .ok w' => sentBetween w w'
  | .error _ => []

/-- The packets given to `send` while a packet is handled. -/
def emitted (J : JsonLib) (w : Chat) (call : ConnId × Packet) : List Packet :=
  sentDuring w (receive J w call)

section Bodies

variable {J : JsonLib}

theorem decodable_iff
    {pkt : Packet} :
    Decodable pkt ↔ pkt.body.length ≤ MAX_BODY_LENGTH - 1 := by
  constructor
  · exact And.left
  · intro hbody
    have hlimit : pkt.body.length + TYPE_SIZE ≤ MAX_BODY_LENGTH := by
      simp only [TYPE_SIZE, MAX_BODY_LENGTH] at *
      omega
    have hdec := decode_encode hlimit []
    rw [List.append_nil] at hdec
    exact ⟨hbody, decode_eq_of_done hdec⟩

/-- The keys of the documents that the server writes. -/
theorem dumpedLength_keys :
    Json.dumpedLength "content" = 9 ∧ Json.dumpedLength "from" = 6 ∧
      Json.dumpedLength "time" = 6 ∧ Json.dumpedLength "to" = 4 ∧
        Json.dumpedLength "users" = 7 := by
  decide +kernel

theorem length_dump_chat
    (content sender : String) (now : Int) :
    (Json.dump (.obj [("content", .str content), ("from", .str sender),
      ("time", .int now)])).length = chatLength content sender now := by
  obtain ⟨hcontent, hfrom, htime, -⟩ := dumpedLength_keys
  simp only [Json.length_dump_obj, Json.length_dump_str, Json.length_dump_int, List.map_cons,
    List.map_nil, List.sum_cons, List.sum_nil, List.length_cons, List.length_nil, hcontent,
    hfrom, htime, chatLength]
  omega

theorem length_dump_private
    (content sender to_ : String) :
    (Json.dump (.obj [("content", .str content), ("from", .str sender),
      ("to", .str to_)])).length = privateLength content sender to_ := by
  obtain ⟨hcontent, hfrom, -, hto, -⟩ := dumpedLength_keys
  simp only [Json.length_dump_obj, Json.length_dump_str, List.map_cons, List.map_nil,
    List.sum_cons, List.sum_nil, List.length_cons, List.length_nil, hcontent, hfrom, hto,
    privateLength]
  omega

theorem length_dump_system
    (text : String) (now : Int) :
    (Json.dump (.obj [("content", .str text), ("time", .int now)])).length =
      systemLength text now := by
  obtain ⟨hcontent, -, htime, -⟩ := dumpedLength_keys
  simp only [Json.length_dump_obj, Json.length_dump_str, Json.length_dump_int, List.map_cons,
    List.map_nil, List.sum_cons, List.sum_nil, List.length_cons, List.length_nil, hcontent,
    htime, systemLength]
  omega

theorem length_dump_userList
    (names : List String) :
    (Json.dump (.obj [("users", .arr (names.map .str))])).length = userListLength names := by
  obtain ⟨-, -, -, -, husers⟩ := dumpedLength_keys
  have hnames : (fun elem : Json => (Json.dump elem).length) ∘ Json.str = Json.dumpedLength := by
    funext name
    exact Json.length_dump_str name
  simp only [Json.length_dump_obj, Json.length_dump_arr, List.map_map, hnames, List.map_cons,
    List.map_nil, List.sum_cons, List.sum_nil, List.length_cons, List.length_nil,
    List.length_map, husers, userListLength]
  omega

theorem ackPacket_decodable
    (hdump : ∀ j : Json, j.Flat → J.dump j = j.dump) {ok : Bool} {err : String}
    (herr : ok = false → err ∈ refusals) :
    Decodable (ackPacket J ok err) := by
  have hshort : ∀ err ∈ refusals, (Json.dump (ackJson false err)).length ≤ 100 := by
    decide +kernel
  have htrue : (Json.dump (ackJson true "")).length ≤ 100 := by
    decide +kernel
  rw [decodable_iff, ackPacket, hdump _ (by cases ok <;> simp [ackJson, Json.Flat, Json.Plain])]
  simp only [MAX_BODY_LENGTH]
  cases ok with
  | true =>
      have : (Json.dump (ackJson true err)).length ≤ 100 := htrue
      omega
  | false =>
      have := hshort err (herr rfl)
      omega

theorem userListPacket_decodable_iff
    (hdump : ∀ j : Json, j.Flat → J.dump j = j.dump) (w : Chat) :
    Decodable (userListPacket J w) ↔
      userListLength w.env.users.keys ≤ MAX_BODY_LENGTH - 1 := by
  rw [decodable_iff, userListPacket, hdump _ (by simp [Json.Flat, Json.Plain]),
    length_dump_userList, UserManager.usernames]

end Bodies

section Announcements

variable {J : JsonLib} {w w' : Chat} {conn : ConnId} {pkt : Packet}

/-- A packet for several connections. -/
theorem copies_decodable_iff
    {conns : List ConnId} :
    (∀ m ∈ conns.map fun c => (c, pkt), Decodable m.2) ↔ (conns ≠ [] → Decodable pkt) := by
  rw [List.forall_mem_map]
  constructor
  · intro h hne
    obtain ⟨c, hc⟩ := List.exists_mem_of_ne_nil conns hne
    exact h c hc
  · intro h c hc
    exact h (List.ne_nil_of_mem hc)

theorem announcement_decodable_iff
    (hdump : ∀ j : Json, j.Flat → J.dump j = j.dump) (w : Chat) (text : String) :
    (∀ m ∈ announcement J w text, Decodable m.2) ↔ Announceable w.now w.env.users text := by
  have hsystem : Decodable (systemPacket J text w.now) ↔
      systemLength text w.now ≤ MAX_BODY_LENGTH - 1 := by
    rw [decodable_iff, systemPacket, hdump _ (by simp [Json.Flat, Json.Plain]),
      length_dump_system]
  have hsome : recipients w.env.users ≠ [] ↔ w.env.users.entries ≠ [] := by
    rw [recipients, ne_eq, List.map_eq_nil_iff]
  rw [announcement, List.forall_mem_append, copies_decodable_iff, copies_decodable_iff, hsome,
    hsystem, userListPacket_decodable_iff hdump, Announceable, imp_and]

end Announcements

/-- The names of a connection are those it is logged in under. -/
def NamesOwned (w : Chat) : Prop :=
  ∀ name c, w.env.users.lookup name = some c → LoggedInAs w c name

section Emission

variable {J : JsonLib} {w w' : Chat} {conn : ConnId} {pkt : Packet}

theorem sentBetween_eq
    (notes : List Obs) {out : List (ConnId × Packet)}
    (htrace : w'.trace = w.trace ++ notes ++ out.map fun m => Obs.sent m.1 m.2)
    (hnotes : notes.filterMap Obs.sentPacket? = []) :
    sentBetween w w' = out.map fun m => m.2 := by
  have hout : (Obs.sentPacket? ∘ fun m : ConnId × Packet => Obs.sent m.1 m.2) =
      fun m => some m.2 := rfl
  rw [sentBetween, htrace, List.append_assoc, List.drop_left, List.filterMap_append, hnotes,
    List.nil_append, List.filterMap_map, hout, List.filterMap_eq_map']

theorem Sends.sentBetween
    {out : List (ConnId × Packet)} (h : Sends w w' out) :
    sentBetween w w' = out.map fun m => m.2 := by
  apply sentBetween_eq []
  · rw [List.append_nil]
    exact h.trace
  · rfl

/-- Handlers that refuse, or throw, send nothing over the limit. -/
theorem decodable_of_refuses
    (hdump : ∀ j : Json, j.Flat → J.dump j = j.dump) {x : Except Exn Chat}
    (h : ∀ w', x = .ok w' → Refuses J w conn w' ∨ Sends w w' []) :
    ∀ pkt ∈ sentDuring w x, Decodable pkt := by
  cases x with
  | error e =>
      simp [sentDuring]
  | ok w' =>
      rcases h w' rfl with ⟨err, herr, hout⟩ | hout
      · rw [sentDuring, hout.sentBetween, List.forall_mem_map, List.forall_mem_singleton]
        exact ackPacket_decodable hdump fun _ => herr
      · simp [sentDuring, hout.sentBetween]

/-- Handlers that serve a request `R`, of which the document has one at most, and refuse
everything else. -/
theorem sentDuring_decodable_iff
    (hdump : ∀ j : Json, j.Flat → J.dump j = j.dump) {ι : Type} {R P : ι → Prop}
    {x : Except Exn Chat}
    (hserves : ∀ i, R i → ((∀ pkt ∈ sentDuring w x, Decodable pkt) ↔ P i))
    (hrefuses : (∀ i, ¬ R i) → ∀ w', x = .ok w' → Refuses J w conn w' ∨ Sends w w' []) :
    (∀ pkt ∈ sentDuring w x, Decodable pkt) ↔ ∀ i, R i → P i := by
  by_cases hrequest : ∃ i, R i
  · obtain ⟨i, hi⟩ := hrequest
    constructor
    · intro h i' hi'
      exact (hserves i' hi').mp h
    · intro h
      exact (hserves i hi).mpr (h i hi)
  · rw [not_exists] at hrequest
    refine iff_of_true ?_ fun i hi => absurd hi (hrequest i)
    exact decodable_of_refuses hdump (hrefuses hrequest)

theorem handleLogin_decodable_iff
    (hdump : ∀ j : Json, j.Flat → J.dump j = j.dump) :
    (∀ pkt' ∈ sentDuring w (handleLogin J w conn pkt), Decodable pkt') ↔
      ∀ username, LogsInAs J w conn pkt username →
        Announceable w.now (w.env.users.insert username conn) (username ++ "上线") := by
  apply sentDuring_decodable_iff hdump
  · intro username hlogs
    obtain ⟨w', hok, hout⟩ := handleLogin_accepts hlogs
    have hsent : sentBetween w w' =
        ((conn, ackPacket J true "") ::
          announcement J (loggedIn w conn username) (username ++ "上线")).map fun m => m.2 :=
      sentBetween_eq [.registered conn username] hout.trace rfl
    rw [hok, sentDuring, hsent, List.forall_mem_map, List.forall_mem_cons,
      and_iff_right (ackPacket_decodable hdump (by simp)), announcement_decodable_iff hdump]
    rfl
  · intro hno w' hok
    exact .inl (handleLogin_refuses hno hok)

theorem handleChat_decodable_iff
    (hdump : ∀ j : Json, j.Flat → J.dump j = j.dump) :
    (∀ pkt' ∈ sentDuring w (handleChat J w conn pkt), Decodable pkt') ↔
      ∀ content, Says J w conn pkt content → (∃ c ∈ recipients w.env.users, c ≠ conn) →
        chatLength content (w.conns conn).username w.now ≤ MAX_BODY_LENGTH - 1 := by
  apply sentDuring_decodable_iff hdump
  · intro content hsaid
    obtain ⟨w', hok, hout⟩ := handleChat_spreads hsaid
    have hsome : ((recipients w.env.users).filter fun c => c ≠ conn) ≠ [] ↔
        ∃ c ∈ recipients w.env.users, c ≠ conn := by
      rw [ne_eq, List.filter_eq_nil_iff]
      simp
    rw [hok, sentDuring, hout.sentBetween, List.forall_mem_map, copies_decodable_iff, hsome,
      decodable_iff, hdump _ (by simp [Json.Flat, Json.Plain]), length_dump_chat]
  · intro hno w' hok
    exact handleChat_refuses hno hok

theorem handlePrivate_decodable_iff
    (hdump : ∀ j : Json, j.Flat → J.dump j = j.dump) :
    (∀ pkt' ∈ sentDuring w (handlePrivate J w conn pkt), Decodable pkt') ↔
      ∀ to_ content, Tells J w conn pkt to_ content →
        privateLength content (w.conns conn).username to_ ≤ MAX_BODY_LENGTH - 1 := by
  rw [sentDuring_decodable_iff hdump (R := fun m : String × String => Tells J w conn pkt m.1 m.2)
    (P := fun m => privateLength m.2 (w.conns conn).username m.1 ≤ MAX_BODY_LENGTH - 1),
    Prod.forall]
  · rintro ⟨to_, content⟩ htells
    obtain ⟨w', target, hok, hout⟩ := handlePrivate_delivers htells
    rw [hok, sentDuring, hout.sentBetween, List.forall_mem_map, List.forall_mem_singleton,
      decodable_iff, hdump _ (by simp [Json.Flat, Json.Plain]), length_dump_private]
  · intro hno w' hok
    exact handlePrivate_refuses (fun to_ content => hno (to_, content)) hok

theorem removeFirst_of_absent
    {users : UserTable} (h : ∀ kv ∈ users.entries, kv.2 ≠ conn) :
    UserManager.removeFirst users conn = users := by
  have hnone : users.entries.find? (fun kv => kv.2 = conn) = none := by
    rw [List.find?_eq_none]
    intro kv hkv
    simpa using h kv hkv
  rw [UserManager.removeFirst, hnone]

theorem NamesOwned.name_unique
    (h : NamesOwned w) {name name' : String} (hname : w.env.users.lookup name = some conn)
    (hname' : w.env.users.lookup name' = some conn) :
    name = name' := by
  rw [← (h name conn hname).2, ← (h name' conn hname').2]

/-- `handleLogOut` and `onClose` both remove the user. -/
theorem NamesOwned.removeFirst_twice
    (h : NamesOwned w) :
    UserManager.removeFirst (UserManager.removeFirst w.env.users conn) conn =
      UserManager.removeFirst w.env.users conn := by
  apply removeFirst_of_absent
  intro kv hkv
  exact ((lookup_removeFirst fun _ _ => h.name_unique).mp (AList.mem_lookup_iff.mpr hkv)).2

/-- The state in which a logout has `onClose` called. -/
def loggingOut (w : Chat) (conn : ConnId) : Chat :=
  ((UserManager.remove w conn).removeFd (w.conns conn).fd).note (.closed conn)

theorem trace_handleLogOut
    (J : JsonLib) (hopen : (w.conns conn).state ≠ .CLOSED) :
    (handleLogOut (closeCallback J) w conn).trace =
      (onClose J (loggingOut w conn) conn).trace := by
  have hopen' : ((UserManager.remove w conn).conns conn).state ≠ .CLOSED := hopen
  rw [handleLogOut, if_neg hopen, close, if_neg hopen']
  rfl

/-- Only a user who leaves is announced. -/
theorem handleLogOut_decodable_iff
    (hdump : ∀ j : Json, j.Flat → J.dump j = j.dump) (howned : NamesOwned w) :
    (∀ pkt' ∈ sentBetween w (handleLogOut (closeCallback J) w conn), Decodable pkt') ↔
      ((w.conns conn).state = .AUTHENTICATED →
        Announceable w.now (UserManager.removeFirst w.env.users conn)
          ((w.conns conn).username ++ "离线")) := by
  by_cases hclosed : (w.conns conn).state = .CLOSED
  · have hnothing : ∀ pkt' ∈ sentBetween w w, Decodable pkt' := by
      rw [(Sends.refl w).sentBetween]
      simp
    rw [handleLogOut, if_pos hclosed, hclosed]
    exact iff_of_true hnothing fun h => by cases h
  · have hlog := trace_handleLogOut J hclosed
    by_cases hstate : (w.conns conn).state = .AUTHENTICATED
    · have hout := onClose_announces J (loggingOut w conn) hstate
      have husers : (UserManager.remove (loggingOut w conn) conn).env.users =
          UserManager.removeFirst w.env.users conn := howned.removeFirst_twice
      have htrace : (handleLogOut (closeCallback J) w conn).trace =
          w.trace ++ [Obs.closed conn] ++ (announcement J
            (UserManager.remove (loggingOut w conn) conn)
              ((w.conns conn).username ++ "离线")).map fun m => Obs.sent m.1 m.2 := by
        rw [hlog]
        exact hout.trace
      rw [sentBetween_eq [.closed conn] htrace rfl, List.forall_mem_map,
        announcement_decodable_iff hdump, husers]
      exact ⟨fun h _ => h, fun h => h hstate⟩
    · have hquiet : onClose J (loggingOut w conn) conn = loggingOut w conn := by
        rw [onClose]
        exact if_pos hstate
      have htrace : (handleLogOut (closeCallback J) w conn).trace =
          w.trace ++ [Obs.closed conn] ++ ([] : List (ConnId × Packet)).map
            fun m => Obs.sent m.1 m.2 := by
        rw [hlog, hquiet, List.map_nil, List.append_nil]
        rfl
      rw [sentBetween_eq [.closed conn] htrace rfl]
      exact iff_of_true (by simp) fun h => absurd h hstate

/-- One packet: what is sent because of it is within the limit if and only if the
condition is met. -/
theorem emitted_decodable_iff_withinLimit
    (hdump : ∀ j : Json, j.Flat → J.dump j = j.dump) (howned : NamesOwned w)
    (call : ConnId × Packet) :
    (∀ pkt ∈ emitted J w call, Decodable pkt) ↔ WithinLimit J w call.1 call.2 := by
  have hnothing : ∀ pkt ∈ sentBetween w w, Decodable pkt := by
    rw [(Sends.refl w).sentBetween]
    simp
  rw [emitted, receive, onPacket, WithinLimit]
  cases MessageType.ofCode? call.2.type with
  | none =>
      exact iff_of_true hnothing trivial
  | some type =>
      cases type with
      | MSG_LOGIN =>
          exact handleLogin_decodable_iff hdump
      | MSG_CHAT =>
          exact handleChat_decodable_iff hdump
      | MSG_PRIVATE =>
          exact handlePrivate_decodable_iff hdump
      | MSG_USER_LIST =>
          have hout := send_sends w call.1 (userListPacket J w)
          simp only [sentDuring, handleUserList]
          rw [hout.sentBetween, List.forall_mem_map, List.forall_mem_singleton,
            userListPacket_decodable_iff hdump]
      | MSG_PING =>
          have hout := send_sends w call.1 { type := MessageType.MSG_PONG.code, body := [] }
          simp only [sentDuring, handlePing]
          rw [hout.sentBetween, List.forall_mem_map, List.forall_mem_singleton, decodable_iff]
          exact iff_of_true (Nat.zero_le _) trivial
      | MSG_LOGOUT =>
          exact handleLogOut_decodable_iff hdump howned
      | MSG_LOGIN_ACK | MSG_CHAT_BROAD | MSG_PONG | MSG_SYSTEM =>
          exact iff_of_true hnothing trivial

theorem NamesOwned.receive
    (h : NamesOwned w) {call : ConnId × Packet} (hok : receive J w call = .ok w') :
    NamesOwned w' := by
  cases onPacket_effect hok with
  | sends out hout =>
      intro name d hd
      rw [hout.env] at hd
      exact (hout.quiet.loggedInAs d name).mpr (h name d hd)
  | login name out hstate hfree hout =>
      intro name' d hd
      rw [hout.quiet.loggedInAs]
      have hinsert : (w.env.users.insert name call.1).lookup name' = some d := by
        rw [hout.env] at hd
        exact hd
      by_cases hname : name' = name
      · rw [hname, AList.lookup_insert, Option.some.injEq] at hinsert
        rw [hname, ← hinsert, LoggedInAs]
        simp [loggedIn, setUsername, World.setConn]
      · rw [AList.lookup_insert_ne hname] at hinsert
        have hd := h name' d hinsert
        have hne : d ≠ call.1 := by
          rintro rfl
          exact hstate hd.1
        have hconn : (loggedIn w call.1 name).conns d = w.conns d := Function.update_of_ne hne _ _
        rw [LoggedInAs, hconn]
        exact hd
  | logout htype hstate =>
      have hcl := close_closes J (w := UserManager.remove w call.1) (c := call.1) hstate
      intro name d hd
      have hleft : (UserManager.removeFirst w.env.users call.1).lookup name = some d := by
        have husers : (close (closeCallback J) (UserManager.remove w call.1) call.1).env.users =
            UserManager.removeFirst w.env.users call.1 := by
          rw [hcl.users]
          split
          · exact h.removeFirst_twice
          · rfl
        rw [← husers]
        exact hd
      obtain ⟨hd, hne⟩ := (lookup_removeFirst fun _ _ => h.name_unique).mp hleft
      rw [LoggedInAs, hcl.conns d, if_neg hne]
      exact h name d hd

end Emission

section PacketLimit

/-- In every state the server reaches, for every sequence of packets on any
connections: everything that is sent because of them is within the limit and can be
decoded if and only if each of the packets meets `WithinLimit` in the state in which
it is handled. -/
theorem emitted_decodable_iff
    {J : JsonLib} (hdump : ∀ j : Json, j.Flat → J.dump j = j.dump)
    {events : List Event} {w : Chat} (hrun : runServer J events = .ok w)
    (calls : List (ConnId × Packet)) :
    (∀ pkt ∈ Runs.outputs (emitted J) (receive J) w calls, Decodable pkt) ↔
      Runs.Meets (fun w call => WithinLimit J w call.1 call.2) (receive J) w calls := by
  have howned : NamesOwned w := fun name c => ((sessions_run hrun).table name c).mp
  apply Runs.forall_outputs_iff (I := NamesOwned) _ _ howned
  · intro w call h
    exact emitted_decodable_iff_withinLimit hdump h call
  · intro w call w' h
    exact h.receive

/-- A name of `n` letters. -/
def letters (n : Nat) : String :=
  String.ofList (List.replicate n 'a')

theorem bytes_letters
    (n : Nat) :
    bytes (letters n) = List.replicate n 0x61 := by
  have hbyte : UInt8.ofNat 'a'.toNat = 0x61 := by
    decide
  rw [letters, Text.bytes_ofList, List.map_replicate, hbyte]
  intro c hc
  rw [List.eq_of_mem_replicate hc]
  decide

theorem dumpedLength_letters
    (n : Nat) :
    Json.dumpedLength (letters n) = n + 2 := by
  rw [Json.dumpedLength_of_unescaped, bytes_letters, List.length_replicate]
  intro b hb
  rw [bytes_letters] at hb
  rw [List.eq_of_mem_replicate hb]
  decide

/-- The document of a login under this name. -/
def loginDocument (username : String) : Json :=
  .obj [("username", .str username)]

theorem length_dump_loginDocument
    (username : String) :
    (loginDocument username).dump.length = 13 + Json.dumpedLength username := by
  have hkey : Json.dumpedLength "username" = 10 := by
    decide +kernel
  rw [loginDocument, Json.length_dump_obj]
  simp only [List.map_cons, List.map_nil, List.sum_cons, List.sum_nil, List.length_cons,
    List.length_nil, Json.length_dump_str, hkey]
  omega

/-- A login as long as the limit allows: the name has 65520 letters. -/
def longLogin : Packet where
  type := MessageType.MSG_LOGIN.code
  body := (loginDocument (letters 65520)).dump

def longJson : JsonLib :=
  JsonLib.ofTable [(longLogin.body, loginDocument (letters 65520))]

theorem length_longLogin :
    longLogin.body.length = MAX_BODY_LENGTH - 1 := by
  rw [longLogin, length_dump_loginDocument, dumpedLength_letters, MAX_BODY_LENGTH]

/-- A connection that has just been accepted logs in with the name: its login is within
the limit, the announcement of the name is not. -/
theorem longLogin_announced_over_limit :
    ∃ w, runServer longJson [.accept 5] = .ok w ∧
      longLogin.body.length ≤ MAX_BODY_LENGTH - 1 ∧
        ¬ ∀ pkt ∈ Runs.outputs (emitted longJson) (receive longJson) w [(0, longLogin)],
          Decodable pkt := by
  obtain ⟨w, hrun, hstate, husers⟩ : ∃ w, runServer longJson [.accept 5] = .ok w ∧
      (w.conns 0).state = .CONNECTING ∧ w.env.users = ∅ :=
    ⟨_, rfl, rfl, rfl⟩
  have howned : NamesOwned w := fun name c => ((sessions_run hrun).table name c).mp
  have hlogs : LogsInAs longJson w 0 longLogin (letters 65520) := by
    refine ⟨?_, ?_, ?_, loginDocument (letters 65520), ?_, rfl⟩
    · rw [hstate]
      decide
    · intro hempty
      have hlength := congrArg List.length (bytes_letters 65520)
      rw [hempty, List.length_replicate] at hlength
      exact absurd hlength (by decide)
    · rw [husers]
      exact AList.notMem_empty _
    · simp [longJson, JsonLib.ofTable]
  refine ⟨w, hrun, length_longLogin.le, ?_⟩
  intro hall
  have hwithin : WithinLimit longJson w 0 longLogin := by
    rw [← emitted_decodable_iff_withinLimit (fun _ _ => rfl) howned (0, longLogin)]
    intro pkt hpkt
    exact hall pkt (List.mem_append_left _ hpkt)
  have hshort := (hwithin (letters 65520) hlogs (by simp [AList.entries_insert])).1
  have hlong := Json.length_bytes_lt_dumpedLength (letters 65520 ++ "上线")
  rw [bytes_append, List.length_append, bytes_letters, List.length_replicate] at hlong
  rw [systemLength] at hshort
  simp only [MAX_BODY_LENGTH] at hshort
  omega

/-- After a login, a user asks for the list of users. -/
def listPacket : Packet where
  type := MessageType.MSG_USER_LIST.code
  body := []

theorem emitted_decodable_iff_loginRun :
    ∃ w, runServer sampleJson loginRun = .ok w ∧
      (∀ pkt ∈ Runs.outputs (emitted sampleJson) (receive sampleJson) w [(0, listPacket)],
        Decodable pkt) := by
  obtain ⟨w, hrun, hw⟩ := Runs.exists_ok_of_any
    (runServer sampleJson loginRun)
    (fun w => userListLength w.env.users.keys ≤ MAX_BODY_LENGTH - 1)
    (by decide +kernel)
  have hlist : userListLength w.env.users.keys ≤ MAX_BODY_LENGTH - 1 := of_decide_eq_true hw
  refine ⟨w, hrun, (emitted_decodable_iff (fun _ _ => rfl) hrun _).mpr ?_⟩
  exact ⟨hlist, fun _ _ => trivial⟩

end PacketLimit

end Tcp
end ChatRoom
