import ChatRoom.Tcp.PacketStream
import ChatRoom.Tcp.Server

/-!
# What the operations of the TCP server change

Every operation is described once, by what it may change.  `Sends` is the
effect of sending packets, `Quiet` the effect of anything that leaves the
sessions alone, `Closes` that of closing a connection; `onPacket_effect` says
which of them a packet may have.  `step_invariant` assembles the operations into
a step of the server, so that the invariants below never look into the code.
-/

namespace ChatRoom
namespace Tcp

open Incremental Socket

variable {ε : Type}

/-- Entries of the history that concern output only. -/
def Obs.Silent : Obs → Prop
  | .sent _ _ => True
  | .wrote _ _ => True
  | _ => False

section Sends

/-- The packets for one connection among the packets sent. -/
def packetsTo (c : ConnId) (out : List (ConnId × Packet)) : List Packet :=
  out.filterMap fun m => if m.1 = c then some m.2 else none

/-- The packets `out` have been given to `send`, in this order, and nothing else
has happened. -/
structure Sends (w w' : World ε) (out : List (ConnId × Packet)) : Prop where
  conns : ∀ c, w'.conns c =
    { w.conns c with
      writeBuf := (w'.conns c).writeBuf
      writing := (w'.conns c).writing }
  output : ∀ c, (w'.conns c).writeBuf.readable =
    (w.conns c).writeBuf.readable ++ (packetsTo c out).flatMap encode
  others : ∀ c, packetsTo c out = [] → w'.conns c = w.conns c
  allocated : w'.allocated = w.allocated
  contexts : w'.reactor.contexts = w.reactor.contexts
  openFds : w'.openFds = w.openFds
  now : w'.now = w.now
  env : w'.env = w.env
  trace : w'.trace = w.trace ++ out.map fun m => Obs.sent m.1 m.2

theorem packetsTo_append
    (c : ConnId) (out more : List (ConnId × Packet)) :
    packetsTo c (out ++ more) = packetsTo c out ++ packetsTo c more := by
  exact List.filterMap_append

theorem packetsTo_cons_self
    (c : ConnId) (pkt : Packet) (out : List (ConnId × Packet)) :
    packetsTo c ((c, pkt) :: out) = pkt :: packetsTo c out := by
  simp [packetsTo]

theorem mem_packetsTo
    {c : ConnId} {pkt : Packet} {out : List (ConnId × Packet)} :
    pkt ∈ packetsTo c out ↔ (c, pkt) ∈ out := by
  simp only [packetsTo, List.mem_filterMap, Option.ite_none_right_eq_some, Option.some.injEq]
  constructor
  · rintro ⟨m, hm, rfl, rfl⟩
    exact hm
  · intro h
    exact ⟨(c, pkt), h, rfl, rfl⟩

theorem Sends.refl
    (w : World ε) :
    Sends w w [] where
  conns _ := rfl
  output c := by
    simp [packetsTo]
  others _ _ := rfl
  allocated := rfl
  contexts := rfl
  openFds := rfl
  now := rfl
  env := rfl
  trace := by
    simp

theorem Sends.trans
    {w w' w'' : World ε} {out more : List (ConnId × Packet)}
    (h : Sends w w' out) (h' : Sends w' w'' more) :
    Sends w w'' (out ++ more) where
  conns c := by
    rw [h'.conns c, h.conns c]
  output c := by
    rw [h'.output c, h.output c, packetsTo_append, List.flatMap_append, List.append_assoc]
  others c hc := by
    rw [packetsTo_append, List.append_eq_nil_iff] at hc
    rw [h'.others c hc.2, h.others c hc.1]
  allocated := h'.allocated.trans h.allocated
  contexts := h'.contexts.trans h.contexts
  openFds := h'.openFds.trans h.openFds
  now := h'.now.trans h.now
  env := h'.env.trans h.env
  trace := by
    rw [h'.trace, h.trace, List.map_append, List.append_assoc]

/-- Whether or not the connection was writing, `send` leaves it writing. -/
theorem conns_send
    (w : World ε) (c : ConnId) (pkt : Packet) :
    (send w c pkt).conns =
      Function.update w.conns c
        { w.conns c with
          writeBuf := (w.conns c).writeBuf.append (encode pkt)
          writing := true } := by
  by_cases hw : (w.conns c).writing
  · simp [send, hw, World.setConn, World.note]
  · simp [send, hw, World.setConn, World.note, World.modifyFd]

theorem send_sends
    (w : World ε) (c : ConnId) (pkt : Packet) :
    Sends w (send w c pkt) [(c, pkt)] := by
  constructor
  case conns =>
    intro d
    rw [conns_send]
    by_cases hd : d = c
    · subst hd
      rw [Function.update_self]
    · rw [Function.update_of_ne hd]
  case output =>
    intro d
    rw [conns_send]
    by_cases hd : d = c
    · subst hd
      simp [packetsTo]
    · simp [packetsTo, Function.update_of_ne hd, Ne.symm hd]
  case others =>
    intro d hd
    have hne : d ≠ c := by
      rintro rfl
      simp [packetsTo] at hd
    rw [conns_send, Function.update_of_ne hne]
  all_goals
    by_cases hw : (w.conns c).writing <;>
      simp [send, hw, World.setConn, World.note, World.modifyFd]

theorem sendAll_sends
    (w : Chat) (conns : List ConnId) (pkt : Packet) :
    Sends w (UserManager.sendAll w conns pkt) (conns.map fun c => (c, pkt)) := by
  induction conns generalizing w with
  | nil =>
      exact Sends.refl w
  | cons c conns ih =>
      exact (send_sends w c pkt).trans (ih (send w c pkt))

end Sends

section Quiet

/-- Buffers, time stamps and interest may have changed, and nothing else. -/
structure Quiet (w w' : World ε) : Prop where
  fd : ∀ c, (w'.conns c).fd = (w.conns c).fd
  state : ∀ c, (w'.conns c).state = (w.conns c).state
  username : ∀ c, (w'.conns c).username = (w.conns c).username
  allocated : w'.allocated = w.allocated
  contexts : w'.reactor.contexts = w.reactor.contexts
  env : w'.env = w.env
  trace : ∃ more, w'.trace = w.trace ++ more ∧ ∀ o ∈ more, o.Silent

theorem Sends.quiet
    {w w' : World ε} {out : List (ConnId × Packet)} (h : Sends w w' out) :
    Quiet w w' where
  fd c := by
    rw [h.conns c]
  state c := by
    rw [h.conns c]
  username c := by
    rw [h.conns c]
  allocated := h.allocated
  contexts := h.contexts
  env := h.env
  trace := by
    refine ⟨_, h.trace, ?_⟩
    intro o ho
    obtain ⟨m, -, rfl⟩ := List.mem_map.mp ho
    trivial

/-- Writing back a connection with the same session. -/
theorem quiet_setConn
    {w : World ε} {c : ConnId} {conn : Connection}
    (hfd : conn.fd = (w.conns c).fd) (hstate : conn.state = (w.conns c).state)
    (hname : conn.username = (w.conns c).username) :
    Quiet w (w.setConn c conn) := by
  constructor
  case trace =>
    exact ⟨[], by simp [World.setConn]⟩
  case fd | state | username =>
    intro d
    by_cases hd : d = c
    · subst hd
      simp [World.setConn, hfd, hstate, hname]
    · simp [World.setConn, hd]
  all_goals
    rfl

theorem quiet_consume
    (w : World ε) (c : ConnId) (n : Nat) :
    Quiet w (consume w c n) := by
  exact quiet_setConn rfl rfl rfl

/-- The connection has put out what the socket took, and nothing else has happened. -/
structure Writes (c : ConnId) (w w' : World ε) : Prop where
  conns : w'.conns = Function.update w.conns c
    { w.conns c with
      writeBuf := (w'.conns c).writeBuf
      writing := (w'.conns c).writing
      lastActive := (w'.conns c).lastActive }
  allocated : w'.allocated = w.allocated
  contexts : w'.reactor.contexts = w.reactor.contexts
  env : w'.env = w.env
  now : w'.now = w.now
  output : ∃ outs : List Bytes, w'.trace = w.trace ++ outs.map (Obs.wrote c) ∧
    (w'.conns c).lastActive = if outs = [] then (w.conns c).lastActive else w.now

theorem wrote_writes
    (w : World ε) (c : ConnId) (n : Nat) :
    Writes c w (wrote w c n) where
  conns := by
    simp [wrote, World.setConn, World.note]
  allocated := rfl
  contexts := rfl
  env := rfl
  now := rfl
  output := ⟨[(w.conns c).writeBuf.readable.take n], rfl, by simp [wrote, World.setConn]⟩

/-- Writing that ends changes the interest only. -/
theorem stopWriting_writes
    (w : World ε) (c : ConnId) (fd : Fd) (events : Interest) :
    Writes c w ((w.modifyFd fd events).setConn c { w.conns c with writing := false }) where
  conns := by
    simp [World.setConn, World.modifyFd]
  allocated := rfl
  contexts := Reactor.contexts_modifyFd w.reactor fd events
  env := rfl
  now := rfl
  output := ⟨[], by simp [World.setConn, World.modifyFd], by simp [World.setConn]⟩

theorem Writes.quiet
    {w w' : World ε} {c : ConnId} (h : Writes c w w') :
    Quiet w w' := by
  constructor
  case trace =>
    obtain ⟨outs, htrace, -⟩ := h.output
    refine ⟨_, htrace, ?_⟩
    intro o ho
    obtain ⟨bs, -, rfl⟩ := List.mem_map.mp ho
    trivial
  case fd | state | username =>
    intro d
    rw [h.conns, Function.update_apply]
    split
    · next hd =>
        rw [hd]
    · rfl
  case allocated =>
    exact h.allocated
  case contexts =>
    exact h.contexts
  case env =>
    exact h.env

theorem quiet_clock
    (w : World ε) (now : Int) :
    Quiet w { w with now := now } where
  fd _ := rfl
  state _ := rfl
  username _ := rfl
  allocated := rfl
  contexts := rfl
  env := rfl
  trace := ⟨[], by simp⟩

theorem quiet_recvLoop
    (w : World ε) (c : ConnId) (fuel : Nat) (s : Input) :
    Quiet w (w.setConn c (recvLoop w.now fuel (w.conns c) s).1) := by
  apply quiet_setConn <;> rw [recvLoop_frame]

end Quiet

section Announcements

/-- The connections of the users. -/
def recipients (users : UserTable) : List ConnId :=
  users.entries.map fun kv => kv.2

/-- The packet with a text of the server. -/
def systemPacket (J : JsonLib) (text : String) (now : Int) : Packet where
  type := MessageType.MSG_SYSTEM.code
  body := J.dump (.obj [("content", .str text), ("time", .int now)])

/-- What all users get when somebody comes or goes. -/
def announcement (J : JsonLib) (w : Chat) (text : String) : List (ConnId × Packet) :=
  ((recipients w.env.users).map fun c => (c, systemPacket J text w.now)) ++
    (recipients w.env.users).map fun c => (c, userListPacket J w)

theorem announcement_sends
    (J : JsonLib) (w : Chat) (text : String) :
    Sends w (broadcastUserList J (broadcastSystem J w text)) (announcement J w text) := by
  have hsystem : Sends w (broadcastSystem J w text)
      ((recipients w.env.users).map fun c => (c, systemPacket J text w.now)) :=
    sendAll_sends w _ _
  have hpacket : userListPacket J (broadcastSystem J w text) = userListPacket J w := by
    rw [userListPacket, UserManager.usernames, hsystem.env]
    rfl
  rw [broadcastUserList, UserManager.broadcast, hpacket, hsystem.env]
  exact hsystem.trans (sendAll_sends _ (recipients w.env.users) (userListPacket J w))

/-- An announcement answers no login. -/
theorem announcement_type
    {J : JsonLib} {w : Chat} {text : String} {m : ConnId × Packet}
    (hm : m ∈ announcement J w text) :
    m.2.type ≠ MessageType.MSG_LOGIN_ACK.code := by
  rcases List.mem_append.mp hm with hm | hm
  · obtain ⟨c, -, rfl⟩ := List.mem_map.mp hm
    show MessageType.MSG_SYSTEM.code ≠ MessageType.MSG_LOGIN_ACK.code
    decide
  · obtain ⟨c, -, rfl⟩ := List.mem_map.mp hm
    show MessageType.MSG_USER_LIST.code ≠ MessageType.MSG_LOGIN_ACK.code
    decide

end Announcements

section Requests

variable (J : JsonLib) (w : Chat) (conn : ConnId) (pkt : Packet)

/-- The packet, if it is a login, enters its sender under this name. -/
def LogsInAs (username : String) : Prop :=
  (w.conns conn).state ≠ .AUTHENTICATED ∧ username ≠ "" ∧ username ∉ w.env.users ∧
    ∃ j, J.parse pkt.body = some j ∧ j.value "username" "" = .ok username

/-- The packet, if it is a chat message, has this content. -/
def Says (content : String) : Prop :=
  (w.conns conn).state = .AUTHENTICATED ∧ content ≠ "" ∧
    ∃ j, J.parse pkt.body = some j ∧ j.value "content" "" = .ok content

/-- The packet, if it is a private message, has this content, for this user. -/
def Tells (to_ content : String) : Prop :=
  (w.conns conn).state = .AUTHENTICATED ∧ to_ ∈ w.env.users ∧
    ∃ j, J.parse pkt.body = some j ∧ j.value "to" "" = .ok to_ ∧
      j.value "content" "" = .ok content

/-- The texts with which the handlers refuse a packet. -/
def refusals : List String :=
  ["已登录", "消息格式错误", "用户名不能为空", "用户名已存在", "未登录", "对象用户不存在"]

/-- The sender is told that the packet is refused, and nothing else is sent. -/
def Refuses (w' : Chat) : Prop :=
  ∃ err ∈ refusals, Sends w w' [(conn, ackPacket J false err)]

end Requests

section Handlers

variable {J : JsonLib} {onClose_ : Chat → ConnId → Chat} {w w' : Chat} {c : ConnId} {pkt : Packet}

theorem sendAck_sends
    (J : JsonLib) (w : Chat) (c : ConnId) (ok : Bool) (err : String) :
    Sends w (sendAck J w c ok err) [(c, ackPacket J ok err)] := by
  exact send_sends w c (ackPacket J ok err)

theorem sendAck_refuses
    (J : JsonLib) (w : Chat) (c : ConnId) {err : String} (herr : err ∈ refusals) :
    Refuses J w c (sendAck J w c false err) :=
  ⟨err, herr, sendAck_sends J w c false err⟩

/-- The sender of a login packet entered under a name. -/
def loggedIn (w : Chat) (c : ConnId) (name : String) : Chat :=
  setUsername ((w.setUsers (w.env.users.insert name c)).note (.registered c name)) c name

/-- A login that is accepted is answered and announced. -/
theorem handleLogin_accepts
    {name : String} (h : LogsInAs J w c pkt name) :
    ∃ w', handleLogin J w c pkt = .ok w' ∧
      Sends (loggedIn w c name) w'
        ((c, ackPacket J true "") :: announcement J (loggedIn w c name) (name ++ "上线")) := by
  obtain ⟨hstate, hne, hfree, j, hj, hname⟩ := h
  have hadd : UserManager.add w name c =
      some ((w.setUsers (w.env.users.insert name c)).note (.registered c name)) := by
    rw [UserManager.add, if_neg hfree]
  have hack := sendAck_sends J (loggedIn w c name) c true ""
  have hannounce := announcement_sends J (sendAck J (loggedIn w c name) c true "")
    (name ++ "上线")
  have hsame : announcement J (sendAck J (loggedIn w c name) c true "") (name ++ "上线") =
      announcement J (loggedIn w c name) (name ++ "上线") := by
    rw [announcement, userListPacket, UserManager.usernames, hack.env, hack.now]
    rfl
  rw [hsame] at hannounce
  refine ⟨_, ?_, hack.trans hannounce⟩
  simp only [handleLogin, if_neg hstate, hj, hname, Except.map, if_neg hne, hadd]
  rfl

/-- Any other login is answered with one of the refusals. -/
theorem handleLogin_refusal
    (hno : ∀ name, ¬ LogsInAs J w c pkt name) (h : handleLogin J w c pkt = .ok w') :
    ∃ err ∈ refusals, w' = sendAck J w c false err := by
  unfold handleLogin at h
  split at h
  · cases h
    exact ⟨_, by decide, rfl⟩
  · next hstate =>
      split at h
      · cases h
        exact ⟨_, by decide, rfl⟩
      · next j hj =>
          obtain ⟨name, hname, h⟩ := Runs.map_eq_ok.mp h
          split at h
          · exact ⟨_, by decide, h.symm⟩
          · next hne =>
              by_cases hmem : name ∈ w.env.users
              · rw [UserManager.add, if_pos hmem] at h
                exact ⟨_, by decide, h.symm⟩
              · exact absurd ⟨hstate, hne, hmem, j, hj, hname⟩ (hno name)

theorem handleLogin_refuses
    (hno : ∀ name, ¬ LogsInAs J w c pkt name) (h : handleLogin J w c pkt = .ok w') :
    Refuses J w c w' := by
  obtain ⟨err, herr, rfl⟩ := handleLogin_refusal hno h
  exact sendAck_refuses J w c herr

/-- What a login may do: refuse with a single answer, or enter a name, accept,
and announce the new user. -/
theorem handleLogin_effect
    (h : handleLogin J w c pkt = .ok w') :
    (∃ err, Sends w w' [(c, ackPacket J false err)]) ∨
      ∃ name out,
        (w.conns c).state ≠ .AUTHENTICATED ∧ w.env.users.lookup name = none ∧
          Sends (loggedIn w c name) w' ((c, ackPacket J true "") :: out) ∧
            ∀ m ∈ out, m.2.type ≠ MessageType.MSG_LOGIN_ACK.code := by
  by_cases hlogs : ∃ name, LogsInAs J w c pkt name
  · obtain ⟨name, hlogs⟩ := hlogs
    obtain ⟨w₁, hok, hout⟩ := handleLogin_accepts hlogs
    rw [h, Except.ok.injEq] at hok
    subst hok
    exact .inr ⟨name, _, hlogs.1, AList.lookup_eq_none.mpr hlogs.2.2.1, hout,
      fun m => announcement_type⟩
  · obtain ⟨err, -, hout⟩ := handleLogin_refuses (not_exists.mp hlogs) h
    exact .inl ⟨err, hout⟩

/-- A chat message goes to the users on other connections. -/
theorem handleChat_spreads
    {content : String} (h : Says J w c pkt content) :
    ∃ w', handleChat J w c pkt = .ok w' ∧
      Sends w w' (((recipients w.env.users).filter fun d => d ≠ c).map fun d =>
        (d,
          { type := MessageType.MSG_CHAT_BROAD.code
            body := J.dump (.obj
              [("content", .str content), ("from", .str (w.conns c).username),
                ("time", .int w.now)]) })) := by
  obtain ⟨hstate, hne, j, hj, hcontent⟩ := h
  refine ⟨_, ?_, sendAll_sends w _ _⟩
  simp only [handleChat, hstate, ne_eq, not_true_eq_false, if_false, hj, hcontent, Except.map,
    if_neg hne]
  rfl

/-- Any other chat message is refused or dropped. -/
theorem handleChat_refuses
    (hno : ∀ content, ¬ Says J w c pkt content) (h : handleChat J w c pkt = .ok w') :
    Refuses J w c w' ∨ Sends w w' [] := by
  unfold handleChat at h
  split at h
  · cases h
    exact .inl (sendAck_refuses J w c (by decide))
  · next hstate =>
      split at h
      · cases h
        exact .inr (Sends.refl w)
      · next j hj =>
          obtain ⟨content, hcontent, h⟩ := Runs.map_eq_ok.mp h
          split at h
          · exact .inr (h ▸ Sends.refl w)
          · next hne =>
              exact absurd ⟨not_not.mp hstate, hne, j, hj, hcontent⟩ (hno content)

/-- A private message goes to the user it is for. -/
theorem handlePrivate_delivers
    {to_ content : String} (h : Tells J w c pkt to_ content) :
    ∃ w' target, handlePrivate J w c pkt = .ok w' ∧
      Sends w w' [(target,
        { type := MessageType.MSG_PRIVATE.code
          body := J.dump (.obj
            [("content", .str content), ("from", .str (w.conns c).username),
              ("to", .str to_)]) })] := by
  obtain ⟨hstate, hmem, j, hj, hto, hcontent⟩ := h
  obtain ⟨target, htarget⟩ := Option.isSome_iff_exists.mp (AList.lookup_isSome.mpr hmem)
  refine ⟨_, target, ?_, send_sends w target _⟩
  simp only [handlePrivate, hstate, ne_eq, not_true_eq_false, if_false, hj, hto, hcontent,
    Except.map, Except.bind, UserManager.get, htarget]

/-- Any other private message is refused or dropped. -/
theorem handlePrivate_refuses
    (hno : ∀ to_ content, ¬ Tells J w c pkt to_ content)
    (h : handlePrivate J w c pkt = .ok w') :
    Refuses J w c w' ∨ Sends w w' [] := by
  unfold handlePrivate at h
  split at h
  · cases h
    exact .inl (sendAck_refuses J w c (by decide))
  · next hstate =>
      split at h
      · cases h
        exact .inr (Sends.refl w)
      · next j hj =>
          obtain ⟨to_, hto, h⟩ := Runs.bind_eq_ok.mp h
          obtain ⟨content, hcontent, h⟩ := Runs.map_eq_ok.mp h
          split at h
          · exact .inl (h ▸ sendAck_refuses J w c (by decide))
          · next target htarget =>
              have hmem : to_ ∈ w.env.users := by
                rw [← AList.lookup_isSome]
                exact Option.isSome_iff_exists.mpr ⟨target, htarget⟩
              exact absurd ⟨not_not.mp hstate, hmem, j, hj, hto, hcontent⟩ (hno to_ content)

theorem exists_sends_of_refuses
    (h : Refuses J w c w' ∨ Sends w w' []) :
    ∃ out, Sends w w' out := by
  rcases h with ⟨err, -, hout⟩ | hout
  · exact ⟨_, hout⟩
  · exact ⟨[], hout⟩

theorem handleChat_sends
    (h : handleChat J w c pkt = .ok w') :
    ∃ out, Sends w w' out := by
  by_cases hsaid : ∃ content, Says J w c pkt content
  · obtain ⟨content, hsaid⟩ := hsaid
    obtain ⟨w₁, hok, hout⟩ := handleChat_spreads hsaid
    rw [h, Except.ok.injEq] at hok
    exact ⟨_, hok ▸ hout⟩
  · exact exists_sends_of_refuses (handleChat_refuses (not_exists.mp hsaid) h)

theorem handlePrivate_sends
    (h : handlePrivate J w c pkt = .ok w') :
    ∃ out, Sends w w' out := by
  by_cases htold : ∃ to_ content, Tells J w c pkt to_ content
  · obtain ⟨to_, content, htold⟩ := htold
    obtain ⟨w₁, target, hok, hout⟩ := handlePrivate_delivers htold
    rw [h, Except.ok.injEq] at hok
    exact ⟨_, hok ▸ hout⟩
  · refine exists_sends_of_refuses (handlePrivate_refuses ?_ h)
    exact fun to_ content htells => htold ⟨to_, content, htells⟩

/-- What a packet may do to the server. -/
inductive PacketEffect (onClose_ : Chat → ConnId → Chat) (w : Chat) (c : ConnId) (pkt : Packet) :
    Chat → Prop where
  /-- packets are sent -/
  | sends {w' : Chat} (out : List (ConnId × Packet)) (h : Sends w w' out) :
      PacketEffect onClose_ w c pkt w'
  /-- the sender is entered under a name, and packets are sent -/
  | login {w' : Chat} (name : String) (out : List (ConnId × Packet))
      (hstate : (w.conns c).state ≠ .AUTHENTICATED)
      (hfree : w.env.users.lookup name = none)
      (h : Sends (loggedIn w c name) w' out) :
      PacketEffect onClose_ w c pkt w'
  /-- the sender is removed from the table and closed -/
  | logout (htype : pkt.type = MessageType.MSG_LOGOUT.code)
      (hstate : (w.conns c).state ≠ .CLOSED) :
      PacketEffect onClose_ w c pkt (close onClose_ (UserManager.remove w c) c)

theorem onPacket_effect
    (h : onPacket J onClose_ w c pkt = .ok w') :
    PacketEffect onClose_ w c pkt w' := by
  unfold onPacket at h
  split at h
  · rcases handleLogin_effect h with ⟨err, hout⟩ | ⟨name, out, hstate, hfree, hout, -⟩
    · exact .sends _ hout
    · exact .login name _ hstate hfree hout
  · obtain ⟨out, hout⟩ := handleChat_sends h
    exact .sends out hout
  · obtain ⟨out, hout⟩ := handlePrivate_sends h
    exact .sends out hout
  · cases h
    exact .sends _ (send_sends w c _)
  · cases h
    exact .sends _ (send_sends w c _)
  · next hcode =>
      cases h
      unfold handleLogOut
      split
      · exact .sends [] (Sends.refl w)
      · next hstate =>
          exact .logout (MessageType.code_of_ofCode? hcode) hstate
  · cases h
    exact .sends [] (Sends.refl w)

end Handlers

section Close

/-- A connection has been closed: it left the reactor, the watch list and the
table of users. -/
structure Closes (c : ConnId) (w w' : Chat) : Prop where
  conns : ∀ d, w'.conns d =
    { w.conns d with
      writeBuf := (w'.conns d).writeBuf
      writing := (w'.conns d).writing
      state := if d = c then .CLOSED else (w.conns d).state }
  allocated : w'.allocated = w.allocated
  contexts : w'.reactor.contexts = Function.update w.reactor.contexts (w.conns c).fd none
  openFds : w'.openFds = Function.update w.openFds (w.conns c).fd false
  users : w'.env.users =
    if (w.conns c).state = .AUTHENTICATED then
      UserManager.removeFirst w.env.users c
    else
      w.env.users
  managed : w'.env.managed = w.env.managed.erase c
  trace : ∃ more, w'.trace = w.trace ++ .closed c :: more ∧ ∀ o ∈ more, o.Silent

/-- A user who leaves is announced to those who stay. -/
theorem onClose_announces
    (J : JsonLib) (w : Chat) {c : ConnId} (hstate : (w.conns c).state = .AUTHENTICATED) :
    Sends (UserManager.remove w c) (onClose J w c)
      (announcement J (UserManager.remove w c) ((w.conns c).username ++ "离线")) := by
  rw [onClose, if_neg (not_not.mpr hstate)]
  exact announcement_sends J (UserManager.remove w c) _

/-- What `MessageHandler::onClose` does: drop the user, then send. -/
theorem onClose_effect
    (J : JsonLib) (w : Chat) (c : ConnId) :
    ∃ out, Sends
      (w.setUsers
        (if (w.conns c).state = .AUTHENTICATED then
          UserManager.removeFirst w.env.users c
        else
          w.env.users))
      (onClose J w c) out := by
  by_cases hstate : (w.conns c).state = .AUTHENTICATED
  · rw [if_pos hstate]
    exact ⟨_, onClose_announces J w hstate⟩
  · rw [onClose, if_neg hstate, if_pos hstate]
    exact ⟨[], Sends.refl w⟩

theorem close_closes
    (J : JsonLib) {w : Chat} {c : ConnId} (hopen : (w.conns c).state ≠ .CLOSED) :
    Closes c w (close (closeCallback J) w c) := by
  obtain ⟨out, hout⟩ := onClose_effect J ((w.removeFd (w.conns c).fd).note (.closed c)) c
  have hconns : ∀ d, (onClose J ((w.removeFd (w.conns c).fd).note (.closed c)) c).conns d = _ :=
    hout.conns
  have hfd : ((onClose J ((w.removeFd (w.conns c).fd).note (.closed c)) c).conns c).fd =
      (w.conns c).fd := by
    rw [hconns]
    rfl
  rw [close, if_neg hopen]
  constructor
  case conns =>
    intro d
    by_cases hd : d = c
    · subst hd
      simp only [closeCallback, ConnectionManager.remove, World.closeFd, World.setConn,
        World.setManaged, Function.update_self, if_true]
      rw [hconns]
      rfl
    · simp only [closeCallback, ConnectionManager.remove, World.closeFd, World.setConn,
        World.setManaged, Function.update_of_ne hd, if_neg hd]
      rw [hconns]
      rfl
  case allocated =>
    exact hout.allocated
  case contexts =>
    exact hout.contexts
  case openFds =>
    simp only [closeCallback, ConnectionManager.remove, World.closeFd, World.setConn,
      World.setManaged, Function.update_self, hfd, hout.openFds]
    rfl
  case users =>
    exact congrArg ChatEnv.users hout.env
  case managed =>
    exact congrArg (fun env => env.managed.erase c) hout.env
  case trace =>
    refine ⟨out.map fun m => .sent m.1 m.2, ?_, ?_⟩
    · have htrace := hout.trace
      simp only [World.setUsers, World.note, World.removeFd, List.append_assoc] at htrace
      exact htrace
    · intro o ho
      obtain ⟨m, -, rfl⟩ := List.mem_map.mp ho
      trivial

end Close

section Keeps

variable {cb : Callbacks ε} {c : ConnId} {I : World ε → Prop} {w w' : World ε}

/-- What taking packets off the buffer, handling them and closing keep, any number of turns
of the decode loop keeps. -/
theorem decodeLoop_keeps
    (hconsume : ∀ w n, I w → I (consume w c n))
    (hpacket : ∀ w pkt w', I w → handlePacket cb w c pkt = .ok w' → I w')
    (hclose : ∀ w, I w → I (close cb.onClose w c))
    {fuel : Nat} (hI : I w) (h : decodeLoop cb c fuel w = .ok w') :
    I w' := by
  induction fuel generalizing w with
  | zero =>
      cases h
      exact hI
  | succ fuel ih =>
      cases hdec : packetDecoder.decode (w.conns c).readBuf.readable with
      | wait =>
          rw [decodeLoop_wait hdec] at h
          cases h
          exact hI
      | malformed =>
          rw [decodeLoop_malformed hdec] at h
          cases h
          exact hclose w hI
      | done n pkt =>
          rw [decodeLoop_done hdec] at h
          obtain ⟨w₁, hcall, hrest⟩ := Runs.bind_eq_ok.mp h
          exact ih (hpacket _ pkt w₁ (hconsume w n hI) hcall) hrest

/-- What the decode loop keeps and what receiving keeps, a readable event keeps. -/
theorem onRead_keeps
    (hreceive : ∀ w readBuf lastActive, I w →
      I (w.setConn c { w.conns c with readBuf := readBuf, lastActive := lastActive }))
    (hpacket : ∀ w pkt w', I w → handlePacket cb w c pkt = .ok w' → I w')
    (hclose : ∀ w, I w → I (close cb.onClose w c))
    {s : Input} (hI : I w) (h : onRead cb w c s = .ok w') :
    I w' := by
  have hstart : I (w.setConn c (recvLoop w.now (s.pending.length + 1) (w.conns c) s).1) := by
    rw [recvLoop_frame]
    exact hreceive w _ _ hI
  unfold onRead at h
  generalize recvLoop w.now (s.pending.length + 1) (w.conns c) s = received at hstart h
  obtain ⟨conn, ending⟩ := received
  cases ending with
  | hangup =>
      cases h
      exact hclose _ hstart
  | drained =>
      exact decodeLoop_keeps (fun w n hI => hreceive w _ _ hI) hpacket hclose hstart h

/-- What sending, the end of sending and closing keep, a writable event keeps. -/
theorem onWrite_keeps
    (hwrote : ∀ w n, I w → I (wrote w c n))
    (hflushed : ∀ w, (w.conns c).writeBuf.readableBytes = 0 → I w →
      I ((w.modifyFd (w.conns c).fd EPOLLIN).setConn c { w.conns c with writing := false }))
    (hclose : ∀ w, I w → I (close cb.onClose w c))
    (results : List SendResult) (hI : I w) :
    I (onWrite cb c w results) := by
  induction results generalizing w with
  | nil =>
      unfold onWrite
      split
      · exact hI
      · next hempty =>
          split
          · exact hflushed w (Nat.eq_zero_of_not_pos hempty) hI
          · exact hI
  | cons result results ih =>
      unfold onWrite
      split
      · cases result with
        | accepts want =>
            exact ih (hwrote w _ hI)
        | again =>
            exact hI
        | error | zero =>
            exact hclose w hI
      · next hempty =>
          split
          · exact hflushed w (Nat.eq_zero_of_not_pos hempty) hI
          · exact hI

/-- Handling an event of the connection is reading, then writing. -/
theorem handleEvent_keeps
    {fd : Fd} {events : Ready} {s : Input} {results : List SendResult}
    (hc : w.reactor.contexts fd = some c)
    (hread : ∀ w', (events.input ∨ events.failure) → onRead cb w c s = .ok w' → I w')
    (hwrite : ∀ w, I w → I (onWrite cb c w results))
    (hI : ¬ (events.input ∨ events.failure) → I w)
    (h : handleEvent cb w fd events s results = .ok w') :
    I w' := by
  simp only [handleEvent, hc] at h
  split at h
  · next hfail =>
      exact hread w' (.inr hfail) h
  · next hfail =>
      obtain ⟨w₁, hfirst, hsecond⟩ := Runs.map_eq_ok.mp h
      have hI₁ : I w₁ := by
        split at hfirst
        · next hin =>
            exact hread w₁ (.inl hin) hfirst
        · next hin =>
            cases hfirst
            exact hI (not_or.mpr ⟨hin, hfail⟩)
      split at hsecond
      · exact hsecond ▸ hwrite w₁ hI₁
      · exact hsecond ▸ hI₁

end Keeps

section Assembly

variable {cb : Callbacks ε} {c : ConnId}

/-- The decode loop hands over, one after the other, the packets that the
readable bytes drain to; `I` says what holds with a list of packets to come. -/
theorem decodeLoop_invariant
    {I : List Packet → World ε → Prop}
    (hbuf : ∀ w pkt w', cb.onPacket w c pkt = .ok w' →
      (w'.conns c).readBuf = (w.conns c).readBuf)
    (hconsume : ∀ pkts w n, I pkts w → I pkts (consume w c n))
    (hpacket : ∀ pkt pkts w w', I (pkt :: pkts) w → handlePacket cb w c pkt = .ok w' → I pkts w')
    (hclose : ∀ w, I [] w → I [] (close cb.onClose w c))
    {fuel : Nat} {w w' : World ε}
    (hfuel : (w.conns c).readBuf.readableBytes ≤ fuel)
    (hI : I (packetDecoder.drain (w.conns c).readBuf.readable).items w)
    (h : decodeLoop cb c fuel w = .ok w') :
    I [] w' := by
  induction fuel generalizing w with
  | zero =>
      rw [Decoder.drain_wait _ (decode_wait_of_no_fuel hfuel)] at hI
      cases h
      exact hI
  | succ fuel ih =>
      cases hdec : packetDecoder.decode (w.conns c).readBuf.readable with
      | wait =>
          rw [Decoder.drain_wait _ hdec] at hI
          rw [decodeLoop_wait hdec] at h
          cases h
          exact hI
      | malformed =>
          rw [Decoder.drain_malformed hdec] at hI
          rw [decodeLoop_malformed hdec] at h
          cases h
          exact hclose w hI
      | done n pkt =>
          have hbounds := packetDecoder.done_bounds hdec
          have hlen := (w.conns c).readBuf.length_readable
          rw [Decoder.drain_done hdec] at hI
          rw [decodeLoop_done hdec] at h
          obtain ⟨w₁, hcall, hrest⟩ := Runs.bind_eq_ok.mp h
          have hread : (w₁.conns c).readBuf.readable = (w.conns c).readBuf.readable.drop n := by
            rw [hbuf _ _ _ hcall, ← Buffer.readable_consume]
            simp [World.note, consume, World.setConn]
          have hless : (w₁.conns c).readBuf.readableBytes ≤ fuel := by
            rw [← Buffer.length_readable, hread, List.length_drop]
            omega
          refine ih hless ?_ hrest
          rw [hread]
          exact hpacket _ _ _ _ (hconsume _ _ _ hI) hcall

/-- Reading receives first and decodes then, unless the peer is gone. -/
theorem onRead_invariant
    {I : List Packet → World ε → Prop}
    (hbuf : ∀ w pkt w', cb.onPacket w c pkt = .ok w' →
      (w'.conns c).readBuf = (w.conns c).readBuf)
    (hconsume : ∀ pkts w n, I pkts w → I pkts (consume w c n))
    (hpacket : ∀ pkt pkts w w', I (pkt :: pkts) w → handlePacket cb w c pkt = .ok w' → I pkts w')
    (hclose : ∀ w, I [] w → I [] (close cb.onClose w c))
    {w w' : World ε} {s : Input}
    (hhangup : ∀ conn,
      recvLoop w.now (s.pending.length + 1) (w.conns c) s = (conn, .hangup) →
        I [] (w.setConn c conn))
    (hdrained : ∀ conn,
      recvLoop w.now (s.pending.length + 1) (w.conns c) s = (conn, .drained) →
        I (packetDecoder.drain conn.readBuf.readable).items (w.setConn c conn))
    (h : onRead cb w c s = .ok w') :
    I [] w' := by
  unfold onRead at h
  split at h
  · next conn hloop =>
      cases h
      exact hclose _ (hhangup conn hloop)
  · next conn hloop =>
      have hself : ((w.setConn c conn).conns c).readBuf = conn.readBuf := by
        simp [World.setConn]
      refine decodeLoop_invariant hbuf hconsume hpacket hclose (by rw [hself]) ?_ h
      rw [hself]
      exact hdrained conn hloop

/-- Writing sends out what is buffered, and may close the connection. -/
theorem onWrite_invariant
    {I : World ε → Prop}
    (hwrites : ∀ w w', I w → Writes c w w' → I w')
    (hclose : ∀ w, I w → I (close cb.onClose w c))
    {w : World ε} (results : List SendResult) (hI : I w) :
    I (onWrite cb c w results) := by
  refine onWrite_keeps ?_ ?_ hclose results hI
  · intro w n hI
    exact hwrites w _ hI (wrote_writes w c n)
  · intro w _ hI
    exact hwrites w _ hI (stopWriting_writes w c _ _)

/-- The tables of the server hold connections that exist. -/
structure TablesAllocated (w : Chat) : Prop where
  registered : ∀ fd c, w.reactor.contexts fd = some c → c < w.allocated
  managed : ∀ c ∈ w.env.managed, c < w.allocated

theorem TablesAllocated.quiet
    {w w' : Chat} (h : TablesAllocated w) (hq : Quiet w w') :
    TablesAllocated w' where
  registered := by
    rw [hq.contexts, hq.allocated]
    exact h.registered
  managed := by
    rw [hq.env, hq.allocated]
    exact h.managed

theorem allocated_close
    (J : JsonLib) (w : Chat) (c : ConnId) :
    (close (closeCallback J) w c).allocated = w.allocated := by
  by_cases hopen : (w.conns c).state = .CLOSED
  · rw [close, if_pos hopen]
  · exact (close_closes J hopen).allocated

/-- Closing the connections that were idle closes them one after the other. -/
theorem tick_invariant
    {J : JsonLib} {I : Chat → Prop}
    (hclose : ∀ w c, I w → c < w.allocated → I (close (closeCallback J) w c))
    {w : Chat} (timeoutSec : Int) (htables : TablesAllocated w) (hI : I w) :
    I (ConnectionManager.tick (closeCallback J) w timeoutSec) := by
  have hmem : ∀ c ∈ ConnectionManager.toClose w timeoutSec, c < w.allocated :=
    fun c hc => htables.managed c (List.mem_of_mem_filter hc)
  unfold ConnectionManager.tick
  clear htables
  generalize ConnectionManager.toClose w timeoutSec = cs at hmem ⊢
  induction cs generalizing w with
  | nil =>
      exact hI
  | cons c cs ih =>
      apply ih (hclose w c hI (hmem c (by simp)))
      intro d hd
      rw [allocated_close]
      exact hmem d (List.mem_cons_of_mem c hd)

/-- What a step of the server keeps. -/
theorem step_invariant
    {J : JsonLib} {I : Chat → Prop} {w w' : Chat} {event : Event}
    (htables : TablesAllocated w)
    (hwrites : ∀ c w w', I w → Writes c w w' → I w')
    (hclose : ∀ w c, I w → c < w.allocated → I (close (closeCallback J) w c))
    (haccept : ∀ fd w', accept w fd = .ok w' → I w')
    (hread : ∀ fd events input sends c w', event = .ready fd events input sends →
      w.reactor.contexts fd = some c → (events.input ∨ events.failure) →
        onRead (callbacks J) w c input = .ok w' → I w' ∧ c < w'.allocated)
    (hclock : ∀ now, I { w with now := now })
    (hI : I w) (h : step J w event = .ok w') :
    I w' := by
  cases event with
  | accept fd =>
      rw [step] at h
      split at h
      · cases h
        exact hI
      · exact haccept fd w' h
  | ready fd events input sends =>
      cases hc : w.reactor.contexts fd with
      | none =>
          rw [step, handleEvent, hc] at h
          cases h
          exact hI
      | some c =>
          refine (handleEvent_keeps (I := fun w => I w ∧ c < w.allocated) hc
            (fun w' => hread fd events input sends c w' rfl hc) ?_
            (fun _ => ⟨hI, htables.registered fd c hc⟩) h).1
          intro w hw
          refine onWrite_invariant (I := fun w => I w ∧ c < w.allocated) ?_ ?_ sends hw
          · rintro w w' ⟨hI, hlt⟩ hw
            exact ⟨hwrites c w w' hI hw, hw.allocated ▸ hlt⟩
          · rintro w ⟨hI, hlt⟩
            exact ⟨hclose w c hI hlt, (allocated_close J w c).symm ▸ hlt⟩
  | tick =>
      cases h
      exact tick_invariant hclose 30 htables hI
  | clock now =>
      cases h
      exact hclock now

/-- Handling a packet leaves the bytes that were read to the decode loop. -/
theorem readBuf_onPacket
    {J : JsonLib} {w w' : Chat} {c : ConnId} {pkt : Packet}
    (h : onPacket J (closeCallback J) w c pkt = .ok w') (d : ConnId) :
    (w'.conns d).readBuf = (w.conns d).readBuf := by
  cases onPacket_effect h with
  | sends out hout =>
      rw [hout.conns d]
  | login name out hstate hfree hout =>
      rw [hout.conns d]
      by_cases hd : d = c
      · subst hd
        simp [loggedIn, setUsername, World.setConn, World.note, World.setUsers]
      · simp [loggedIn, setUsername, World.setConn, World.note, World.setUsers, hd]
  | logout htype hstate =>
      rw [(close_closes J (w := UserManager.remove w c) hstate).conns d]
      rfl

/-- What `accept` leaves behind: a new connection, registered and watched. -/
structure Accepts (fd : Fd) (w w' : Chat) : Prop where
  conns : w'.conns = Function.update w.conns w.allocated (Connection.new fd w.now)
  allocated : w'.allocated = w.allocated + 1
  contexts : w'.reactor.contexts = Function.update w.reactor.contexts fd (some w.allocated)
  openFds : w'.openFds = Function.update w.openFds fd true
  users : w'.env.users = w.env.users
  managed : w'.env.managed = w.env.managed.insert w.allocated
  trace : w'.trace = w.trace

theorem accept_accepts
    {w w' : Chat} {fd : Fd} (h : accept w fd = .ok w') :
    Accepts fd w w' := by
  unfold accept start at h
  have hfd : ((newConnection w fd).conns w.allocated).fd = fd := by
    simp [newConnection, World.setConn, Connection.new]
  rw [hfd] at h
  obtain ⟨w₁, hstart, rfl⟩ := Runs.map_eq_ok.mp h
  obtain ⟨r, hadd, rfl⟩ := Runs.map_eq_ok.mp hstart
  obtain ⟨-, rfl⟩ := Reactor.addFd_eq_ok hadd
  exact
    { conns := rfl
      allocated := rfl
      contexts := rfl
      openFds := rfl
      users := rfl
      managed := rfl
      trace := rfl }

end Assembly

end Tcp
end ChatRoom
