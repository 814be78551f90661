import ChatRoom.Tcp.OutputStream
import ChatRoom.Tcp.PacketLimit

/-!
# What the users know of each other

Whenever the table of users changes, the new list of names goes to everybody who is in
the table then.  So the last `MSG_USER_LIST` given to `send` for a user is the list of the
present names, whatever else has been sent since (`user_list_is_current`).
-/

namespace ChatRoom
namespace Tcp

open Socket

/-- The list of users that an entry of the history sends to a connection. -/
def listSentTo (c : ConnId) : Obs → Option Packet
  | .sent d pkt => if d = c ∧ pkt.type = MessageType.MSG_USER_LIST.code then some pkt else none
  | _ => none

/-- The last list of users sent to each user is the present one. -/
def Informed (J : JsonLib) (w : Chat) : Prop :=
  ∀ name c, w.env.users.lookup name = some c →
    Runs.latest (listSentTo c) w.trace = some (userListPacket J w)

/-- A list of users among the packets is the present one. -/
def OnlyCurrent (J : JsonLib) (w : Chat) (out : List (ConnId × Packet)) : Prop :=
  ∀ m ∈ out, m.2.type = MessageType.MSG_USER_LIST.code → m.2 = userListPacket J w

/-- The present list is sent to every user. -/
def TellsAll (J : JsonLib) (w : Chat) (out : List (ConnId × Packet)) : Prop :=
  ∀ name c, w.env.users.lookup name = some c → (c, userListPacket J w) ∈ out

section Lists

variable {J : JsonLib} {w w' : Chat} {c : ConnId} {out : List (ConnId × Packet)}

theorem listSentTo_userList
    (J : JsonLib) (w : Chat) (c : ConnId) :
    listSentTo c (.sent c (userListPacket J w)) = some (userListPacket J w) := by
  simp [listSentTo, userListPacket]

/-- The last list among packets that hold none but the present one. -/
theorem latest_sent
    (honly : OnlyCurrent J w out) (c : ConnId) :
    Runs.latest (listSentTo c) (out.map fun m => Obs.sent m.1 m.2) =
      if (c, userListPacket J w) ∈ out then some (userListPacket J w) else none := by
  induction out with
  | nil =>
      simp
  | cons m out ih =>
      obtain ⟨d, pkt⟩ := m
      have htail := ih fun m hm => honly m (List.mem_cons_of_mem _ hm)
      have hsplit : (((d, pkt) :: out).map fun m => Obs.sent m.1 m.2) =
          [Obs.sent d pkt] ++ out.map fun m => Obs.sent m.1 m.2 := by
        rfl
      rw [hsplit, Runs.latest_append, htail, Runs.latest_singleton]
      by_cases hmem : (c, userListPacket J w) ∈ out
      · simp [hmem]
      · by_cases hread : d = c ∧ pkt.type = MessageType.MSG_USER_LIST.code
        · obtain ⟨rfl, htype⟩ := hread
          obtain rfl : pkt = userListPacket J w := honly _ (List.mem_cons_self ..) htype
          simp [hmem, listSentTo_userList]
        · have hother : ¬ (c, userListPacket J w) = (d, pkt) := by
            rintro ⟨rfl, rfl⟩
            exact hread ⟨rfl, rfl⟩
          simp [hmem, hother, listSentTo, hread]

theorem latest_sends
    (hout : Sends w w' out) (honly : OnlyCurrent J w out) (c : ConnId) :
    Runs.latest (listSentTo c) w'.trace =
      if (c, userListPacket J w) ∈ out then
        some (userListPacket J w)
      else
        Runs.latest (listSentTo c) w.trace := by
  rw [hout.trace, Runs.latest_append, latest_sent honly]
  split <;> rfl

theorem userListPacket_congr
    (henv : w'.env.users = w.env.users) :
    userListPacket J w' = userListPacket J w := by
  rw [userListPacket, userListPacket, UserManager.usernames, UserManager.usernames, henv]

/-- Packets without an old list leave everybody informed. -/
theorem Informed.sends
    (h : Informed J w) (hout : Sends w w' out) (honly : OnlyCurrent J w out) :
    Informed J w' := by
  intro name c hc
  rw [hout.env] at hc
  rw [latest_sends hout honly, userListPacket_congr (congrArg ChatEnv.users hout.env), h name c hc,
    ite_self]

/-- Whatever was known before, a list sent to everybody informs everybody. -/
theorem informed_of_tellsAll
    (hout : Sends w w' out) (honly : OnlyCurrent J w out) (hall : TellsAll J w out) :
    Informed J w' := by
  intro name c hc
  rw [hout.env] at hc
  rw [latest_sends hout honly, if_pos (hall name c hc),
    userListPacket_congr (congrArg ChatEnv.users hout.env)]

/-- Entries of the history that send no list, and a table that stays. -/
theorem Informed.quiet
    (h : Informed J w) (more : List Obs) (htrace : w'.trace = w.trace ++ more)
    (hmore : ∀ o ∈ more, ∀ c, listSentTo c o = none) (husers : w'.env.users = w.env.users) :
    Informed J w' := by
  intro name c hc
  have hnone : Runs.latest (listSentTo c) more = none := by
    rw [Runs.latest, List.findSome?_eq_none_iff]
    intro o ho
    exact hmore o (List.mem_reverse.mp ho) c
  rw [husers] at hc
  rw [htrace, Runs.latest_append, hnone, Option.none_or, h name c hc, userListPacket_congr husers]

theorem announcement_onlyCurrent
    (J : JsonLib) (w : Chat) (text : String) :
    OnlyCurrent J w (announcement J w text) := by
  intro m hm htype
  rcases List.mem_append.mp hm with hm | hm
  · obtain ⟨d, -, rfl⟩ := List.mem_map.mp hm
    have hne : MessageType.MSG_SYSTEM.code ≠ MessageType.MSG_USER_LIST.code := by
      decide
    exact absurd htype hne
  · obtain ⟨d, -, rfl⟩ := List.mem_map.mp hm
    rfl

theorem announcement_tellsAll
    (J : JsonLib) (w : Chat) (text : String) :
    TellsAll J w (announcement J w text) := by
  intro name c hc
  apply List.mem_append_right
  refine List.mem_map.mpr ⟨c, ?_, rfl⟩
  exact List.mem_map.mpr ⟨⟨name, c⟩, AList.mem_lookup_iff.mp hc, rfl⟩

/-- Packets of another type hold no list. -/
theorem onlyCurrent_of_type
    (type : MessageType) (hne : type.code ≠ MessageType.MSG_USER_LIST.code)
    (htype : ∀ m ∈ out, m.2.type = type.code) :
    OnlyCurrent J w out := by
  intro m hm hlist
  exact absurd ((htype m hm).symm.trans hlist) hne

end Lists

section Handlers

variable {J : JsonLib} {w w' : Chat} {c : ConnId} {pkt : Packet}

theorem exists_onlyCurrent_of_refuses
    (h : Refuses J w c w' ∨ Sends w w' []) :
    ∃ out, Sends w w' out ∧ OnlyCurrent J w out := by
  rcases h with ⟨err, -, hout⟩ | hout
  · refine ⟨_, hout, onlyCurrent_of_type .MSG_LOGIN_ACK (by decide) ?_⟩
    simp [ackPacket]
  · exact ⟨[], hout, fun m hm => by simp at hm⟩

theorem handleLogin_lists
    (h : handleLogin J w c pkt = .ok w') :
    (∃ out, Sends w w' out ∧ OnlyCurrent J w out) ∨
      ∃ name out, Sends (loggedIn w c name) w' out ∧ OnlyCurrent J (loggedIn w c name) out ∧
        TellsAll J (loggedIn w c name) out := by
  by_cases hlogs : ∃ name, LogsInAs J w c pkt name
  · obtain ⟨name, hlogs⟩ := hlogs
    obtain ⟨w₁, hok, hout⟩ := handleLogin_accepts hlogs
    rw [h, Except.ok.injEq] at hok
    subst hok
    refine .inr ⟨name, _, hout, ?_, ?_⟩
    · intro m hm htype
      rcases List.mem_cons.mp hm with rfl | hm
      · have hne : MessageType.MSG_LOGIN_ACK.code ≠ MessageType.MSG_USER_LIST.code := by
          decide
        exact absurd htype hne
      · exact announcement_onlyCurrent J _ _ m hm htype
    · intro name' d hd
      exact List.mem_cons_of_mem _ (announcement_tellsAll J _ _ name' d hd)
  · have hrefused := handleLogin_refuses (not_exists.mp hlogs) h
    exact .inl (exists_onlyCurrent_of_refuses (.inl hrefused))

theorem handleChat_lists
    (h : handleChat J w c pkt = .ok w') :
    ∃ out, Sends w w' out ∧ OnlyCurrent J w out := by
  by_cases hsaid : ∃ content, Says J w c pkt content
  · obtain ⟨content, hsaid⟩ := hsaid
    obtain ⟨w₁, hok, hout⟩ := handleChat_spreads hsaid
    rw [h, Except.ok.injEq] at hok
    subst hok
    refine ⟨_, hout, onlyCurrent_of_type .MSG_CHAT_BROAD (by decide) ?_⟩
    intro m hm
    obtain ⟨d, -, rfl⟩ := List.mem_map.mp hm
    rfl
  · exact exists_onlyCurrent_of_refuses (handleChat_refuses (not_exists.mp hsaid) h)

theorem handlePrivate_lists
    (h : handlePrivate J w c pkt = .ok w') :
    ∃ out, Sends w w' out ∧ OnlyCurrent J w out := by
  by_cases htold : ∃ to_ content, Tells J w c pkt to_ content
  · obtain ⟨to_, content, htold⟩ := htold
    obtain ⟨w₁, target, hok, hout⟩ := handlePrivate_delivers htold
    rw [h, Except.ok.injEq] at hok
    subst hok
    refine ⟨_, hout, onlyCurrent_of_type .MSG_PRIVATE (by decide) ?_⟩
    simp
  · refine exists_onlyCurrent_of_refuses (handlePrivate_refuses ?_ h)
    intro to_ content htells
    exact htold ⟨to_, content, htells⟩

/-- The lists of users that a packet has sent: the present one, to everybody if the packet
changes the table. -/
theorem onPacket_lists
    (h : onPacket J (closeCallback J) w c pkt = .ok w') :
    (∃ out, Sends w w' out ∧ OnlyCurrent J w out) ∨
      (∃ name out, Sends (loggedIn w c name) w' out ∧ OnlyCurrent J (loggedIn w c name) out ∧
        TellsAll J (loggedIn w c name) out) ∨
      ((w.conns c).state ≠ .CLOSED ∧
        w' = close (closeCallback J) (UserManager.remove w c) c) := by
  unfold onPacket at h
  split at h
  · -- MSG_LOGIN
    rcases handleLogin_lists h with hrefused | haccepted
    · exact .inl hrefused
    · exact .inr (.inl haccepted)
  · -- MSG_CHAT
    exact .inl (handleChat_lists h)
  · -- MSG_PRIVATE
    exact .inl (handlePrivate_lists h)
  · -- MSG_USER_LIST
    cases h
    refine .inl ⟨_, send_sends w c _, ?_⟩
    intro m hm _
    rw [List.mem_singleton.mp hm]
  · -- MSG_PING
    cases h
    refine .inl ⟨_, send_sends w c _, onlyCurrent_of_type .MSG_PONG (by decide) ?_⟩
    simp
  · -- MSG_LOGOUT
    cases h
    unfold handleLogOut
    split
    · exact .inl ⟨[], Sends.refl w, fun m hm => by simp at hm⟩
    · next hopen =>
        exact .inr (.inr ⟨hopen, rfl⟩)
  · cases h
    exact .inl ⟨[], Sends.refl w, fun m hm => by simp at hm⟩

/-- A user whose connection is closed is announced; nobody else leaves the table. -/
theorem Informed.close
    (h : (w.conns c).state ≠ .AUTHENTICATED → Informed J w) :
    Informed J (close (closeCallback J) w c) := by
  by_cases hclosed : (w.conns c).state = .CLOSED
  · rw [Tcp.close, if_pos hclosed]
    exact h (by rw [hclosed]; decide)
  · have hlog : (Tcp.close (closeCallback J) w c).trace =
        (onClose J ((w.removeFd (w.conns c).fd).note (.closed c)) c).trace := by
      rw [Tcp.close, if_neg hclosed]
      rfl
    have husers : (Tcp.close (closeCallback J) w c).env.users =
        (onClose J ((w.removeFd (w.conns c).fd).note (.closed c)) c).env.users := by
      rw [Tcp.close, if_neg hclosed]
      rfl
    have hcallback : Informed J (onClose J ((w.removeFd (w.conns c).fd).note (.closed c)) c) := by
      by_cases hauth : (w.conns c).state = .AUTHENTICATED
      · exact informed_of_tellsAll (onClose_announces J _ hauth) (announcement_onlyCurrent J _ _)
          (announcement_tellsAll J _ _)
      · rw [onClose, if_pos (show (((w.removeFd _).note _).conns c).state ≠ _ from hauth)]
        exact (h hauth).quiet [.closed c] rfl (by simp [listSentTo]) rfl
    exact hcallback.quiet [] (by rw [hlog, List.append_nil]) (by simp) husers

theorem Informed.handlePacket
    (h : Informed J w) (hs : Sessions w)
    (hpkt : handlePacket (callbacks J) w c pkt = .ok w') :
    Informed J w' := by
  have hnoted : Informed J (w.note (.packet c pkt)) :=
    h.quiet [.packet c pkt] rfl (by simp [listSentTo]) rfl
  rcases onPacket_lists hpkt with ⟨out, hout, honly⟩ | ⟨name, out, hout, honly, hall⟩ |
      ⟨hopen, rfl⟩
  · exact hnoted.sends hout honly
  · exact informed_of_tellsAll hout honly hall
  · apply Informed.close
    intro hauth
    -- a connection that is not logged in is not in the table
    have habsent : UserManager.removeFirst w.env.users c = w.env.users := by
      apply removeFirst_of_absent
      intro kv hkv
      rintro rfl
      exact hauth ((hs.table kv.1 kv.2).mp (AList.mem_lookup_iff.mpr hkv)).1
    exact hnoted.quiet [] (List.append_nil _).symm (by simp) habsent

end Handlers

section Presence

variable {J : JsonLib} {w w' : Chat}

theorem Informed.step
    (hs : Sessions w) (h : Informed J w) {event : Event} (hstep : step J w event = .ok w') :
    Sessions w' ∧ Informed J w' := by
  refine hs.step_keeps ?_ ?_ ?_ ?_ ?_ ?_ h hstep
  · intro w c readBuf lastActive h
    exact h
  · intro w c pkt w' hs h hpkt
    exact h.handlePacket hs hpkt
  · intro w c hs h
    exact Informed.close fun _ => h
  · intro w fd w' h hacc
    have hacc := accept_accepts hacc
    exact h.quiet [] (by rw [hacc.trace, List.append_nil]) (by simp) hacc.users
  · intro c w w' h hwrites
    obtain ⟨outs, htrace, -⟩ := hwrites.output
    exact h.quiet _ htrace (by simp [listSentTo]) (congrArg ChatEnv.users hwrites.env)
  · intro w now h
    exact h

/-- The last list of users given to `send`. -/
theorem latest_listSentTo
    (c : ConnId) (trace : List Obs) :
    Runs.latest (listSentTo c) trace =
      ((sentTo c trace).filter fun pkt =>
        pkt.type = MessageType.MSG_USER_LIST.code).getLast? := by
  have hlist : listSentTo c = fun o => (sentPacket c o).filter fun pkt =>
      decide (pkt.type = MessageType.MSG_USER_LIST.code) := by
    funext o
    cases o with
    | sent d pkt =>
        by_cases hd : d = c
        · simp [listSentTo, sentPacket, hd, Option.filter]
        · simp [listSentTo, sentPacket, hd]
    | packet | closed | registered | wrote =>
        rfl
  rw [Runs.latest, ← List.getLast?_filterMap, sentTo, List.filter_filterMap, hlist]

/-- In every state the server reaches between two callbacks of the reactor, every user has
been sent a list of users, and the last one sent names exactly those who are in the table,
each of them once; what is sent to a user is what has been appended to its output. -/
theorem user_list_is_current
    {events : List Event} (hrun : runServer J events = .ok w) {name : String} {c : ConnId}
    (hc : w.env.users.lookup name = some c) :
    acceptedBytes c w.trace ++ (w.conns c).writeBuf.readable =
        (sentTo c w.trace).flatMap encode ∧
      ∃ (pkt : Packet) (names : List String), ((sentTo c w.trace).filter fun pkt =>
          pkt.type = MessageType.MSG_USER_LIST.code).getLast? = some pkt ∧
        pkt.body = J.dump (.obj [("users", .arr (names.map .str))]) ∧ names.Nodup ∧
          ∀ other, other ∈ names ↔ ∃ d, w.env.users.lookup other = some d := by
  have hinitial : Sessions initial ∧ Informed J initial := by
    refine ⟨sessions_initial, ?_⟩
    intro name c hc
    simp [initial, World.init] at hc
  have hfinal : Sessions w ∧ Informed J w :=
    Runs.run_invariant (fun w event w' hw hstep => Informed.step hw.1 hw.2 hstep) hinitial hrun
  have hout := (outgoing_rule J).callbacks.run outgoing_initial hrun
  have hlast := hfinal.2 name c hc
  rw [latest_listSentTo] at hlast
  refine ⟨hout.stream c, userListPacket J w, w.env.users.keys, hlast, rfl,
    w.env.users.keys_nodup, ?_⟩
  intro other
  rw [← Option.isSome_iff_exists, AList.lookup_isSome, AList.mem_keys]

theorem user_list_is_current_twoUsersRun :
    ∃ w, runServer talkJson twoUsersRun = .ok w ∧ w.env.users.lookup "b" = some 1 ∧
      ∃ (pkt : Packet) (names : List String), ((sentTo 0 w.trace).filter fun pkt =>
          pkt.type = MessageType.MSG_USER_LIST.code).getLast? = some pkt ∧
        pkt.body = talkJson.dump (.obj [("users", .arr (names.map .str))]) ∧ names.Nodup ∧
          "a" ∈ names ∧ "b" ∈ names ∧ "c" ∉ names := by
  obtain ⟨w, hrun, hw⟩ := Runs.exists_ok_of_any
    (runServer talkJson twoUsersRun)
    (fun w => w.env.users.lookup "a" = some 0 ∧ w.env.users.lookup "b" = some 1 ∧
      w.env.users.lookup "c" = none)
    (by decide +kernel)
  obtain ⟨ha, hb, hnobody⟩ := of_decide_eq_true hw
  obtain ⟨-, pkt, names, hlast, hbody, hnodup, hnames⟩ := user_list_is_current hrun ha
  refine ⟨w, hrun, hb, pkt, names, hlast, hbody, hnodup, (hnames "a").mpr ⟨0, ha⟩,
    (hnames "b").mpr ⟨1, hb⟩, ?_⟩
  intro hmem
  obtain ⟨d, hd⟩ := (hnames "c").mp hmem
  rw [hnobody] at hd
  cases hd

end Presence

end Tcp
end ChatRoom
