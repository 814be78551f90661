import ChatRoom.Tcp.Heartbeat
import ChatRoom.Tcp.OperationRule
import ChatRoom.Tcp.Routing
import ChatRoom.Tcp.Service

/-!
# The server is the chat service

The history of the server says what has happened to the service (`occurrences`): packets
have been handed over and connections have been closed.  What has been given to `send` for
a connection is, packet by packet, what the service has put into its inbox, and the
members of the service are the connections that are logged in (`server_refines_service`).

A packet is read off with the types and members the handlers look at (`meaning`), a notice
becomes the packet the handlers build for it (`packetOf`).  `Hearing` reads off the history
who has heard which chat message from whom since it was entered.
-/

namespace ChatRoom
namespace Tcp

/-- What a packet asks for. -/
def meaning (J : JsonLib) (pkt : Packet) : Request :=
  match MessageType.ofCode? pkt.type with
  | some .MSG_LOGIN =>
      .login ((J.parse pkt.body).bind fun j => (j.value "username" "").toOption)
  | some .MSG_CHAT =>
      .chat ((J.parse pkt.body).bind fun j => (j.value "content" "").toOption)
  | some .MSG_PRIVATE =>
      .tell ((J.parse pkt.body).bind fun j =>
        (j.value "to" "").toOption.bind fun to_ =>
          (j.value "content" "").toOption.map fun content => (to_, content))
  | some .MSG_USER_LIST => .list
  | some .MSG_PING => .ping
  | _ => .silent

/-- What an entry of the history is for the service. -/
def occurrence (J : JsonLib) : Obs → Option Occurrence
  | .packet c pkt => some (.request c (meaning J pkt))
  | .closed c => some (.gone c)
  | _ => none

/-- What has happened to the service. -/
def occurrences (J : JsonLib) (trace : List Obs) : List Occurrence :=
  trace.filterMap (occurrence J)

/-- The packet that an entry of the history gives to `send` for a connection. -/
def sentPacket (c : ConnId) : Obs → Option Packet
  | .sent d pkt => if d = c then some pkt else none
  | _ => none

/-- The packets given to `send` for a connection. -/
def sentTo (c : ConnId) (trace : List Obs) : List Packet :=
  trace.filterMap (sentPacket c)

/-- The packet with a notice. -/
def packetOf (J : JsonLib) : Notice → Packet
  | .accepted => ackPacket J true ""
  | .refused reason => ackPacket J false reason
  | .system text now => systemPacket J text now
  | .users names =>
      { type := MessageType.MSG_USER_LIST.code
        body := J.dump (.obj [("users", .arr (names.map .str))]) }
  | .chat u => chatPacket J u.content u.from_ u.now
  | .told from_ to_ content => privatePacket J content from_ to_
  | .pong => { type := MessageType.MSG_PONG.code, body := [] }

/-- Whose packet is being handled, and the chat messages that the connections have been
sent since they were entered, each with the connection it came from. -/
structure Hearing where
  speaker : ConnId
  heard : ConnId → List (ConnId × Packet)

/-- An entry of the history is noticed. -/
def Hearing.notice (h : Hearing) : Obs → Hearing
  | .packet c _ => { h with speaker := c }
  | .registered c _ => { h with heard := Function.update h.heard c [] }
  | .sent c pkt =>
      if pkt.type = MessageType.MSG_CHAT_BROAD.code then
        { h with heard := Function.update h.heard c (h.heard c ++ [(h.speaker, pkt)]) }
      else
        h
  | _ => h

/-- What has been heard in the course of a history. -/
def hearing (trace : List Obs) : Hearing :=
  trace.foldl Hearing.notice { speaker := 0, heard := fun _ => [] }

/-- A chat message among the notices, with the connection it comes from. -/
def Notice.heardFrom? (c : ConnId) : Notice → Option (ConnId × Utterance)
  | .chat u => some (c, u)
  | _ => none

/-- A chat message that has been heard, as a packet. -/
def heardPacket (J : JsonLib) (said : ConnId × Utterance) : ConnId × Packet :=
  (said.1, packetOf J (.chat said.2))

/-- What has been sent is what the service has put into the inboxes. -/
structure Relayed (J : JsonLib) (trace : List Obs) (s : Service) : Prop where
  inbox : ∀ d, sentTo d trace = (s.inbox d).map (packetOf J)
  heard : ∀ d, (hearing trace).heard d = (s.audience.heard d).map (heardPacket J)

/-- The state of the server is this state of the service. -/
structure Agrees (J : JsonLib) (w : Chat) (s : Service) : Prop extends
    Relayed J w.trace s where
  members : ∀ d name, s.members d = some name ↔ LoggedInAs w d name

section Histories

variable {J : JsonLib} {trace more : List Obs} {c d : ConnId}

theorem occurrences_append
    (J : JsonLib) (trace more : List Obs) :
    occurrences J (trace ++ more) = occurrences J trace ++ occurrences J more := by
  exact List.filterMap_append

theorem sentTo_append
    (c : ConnId) (trace more : List Obs) :
    sentTo c (trace ++ more) = sentTo c trace ++ sentTo c more := by
  exact List.filterMap_append

theorem hearing_append
    (trace more : List Obs) :
    hearing (trace ++ more) = more.foldl Hearing.notice (hearing trace) := by
  exact List.foldl_append

/-- Output is nothing that happens to the service. -/
theorem occurrences_silent
    (J : JsonLib) (hmore : ∀ o ∈ more, o.Silent) :
    occurrences J (trace ++ more) = occurrences J trace := by
  have hnone : occurrences J more = [] := by
    apply List.filterMap_eq_nil_iff.mpr
    intro o ho
    have hsilent := hmore o ho
    cases o with
    | sent d pkt | wrote d bs =>
        rfl
    | packet d pkt | closed d | registered d name =>
        exact absurd hsilent id
  rw [occurrences_append, hnone, List.append_nil]

theorem sentTo_sent
    (c : ConnId) (out : List (ConnId × Packet)) :
    sentTo c (out.map fun m => Obs.sent m.1 m.2) = packetsTo c out := by
  rw [sentTo, packetsTo, List.filterMap_map]
  rfl

/-- Chat messages are told from other packets by their type. -/
theorem type_packetOf
    (J : JsonLib) (n : Notice) (c : ConnId) :
    (packetOf J n).type = MessageType.MSG_CHAT_BROAD.code ↔ (n.heardFrom? c).isSome := by
  cases n with
  | chat u =>
      simp [packetOf, chatPacket, Notice.heardFrom?]
  | accepted | refused | system | users | told | pong =>
      simp only [packetOf, ackPacket, systemPacket, privatePacket, Notice.heardFrom?,
        Option.isSome_none, Bool.false_eq_true, iff_false]
      decide

/-- What is heard of packets that are sent one after the other. -/
theorem hearing_sent
    (J : JsonLib) (h : Hearing) (out : List (ConnId × Packet)) (d : ConnId)
    {notices : List Notice} (hout : packetsTo d out = notices.map (packetOf J)) :
    ((out.map fun m => Obs.sent m.1 m.2).foldl Hearing.notice h).heard d =
      h.heard d ++ (notices.filterMap (Notice.heardFrom? h.speaker)).map (heardPacket J) := by
  induction out generalizing h notices with
  | nil =>
      rw [packetsTo, List.filterMap_nil, eq_comm, List.map_eq_nil_iff] at hout
      simp [hout]
  | cons m out ih =>
      obtain ⟨c, pkt⟩ := m
      have hspeaker : (h.notice (.sent c pkt)).speaker = h.speaker := by
        rw [Hearing.notice]
        split <;> rfl
      by_cases hc : c = d
      · subst hc
        rw [packetsTo_cons_self] at hout
        obtain ⟨n, notices, rfl, rfl, hrest⟩ := List.map_eq_cons_iff.mp hout.symm
        have htail := ih (h.notice (.sent c (packetOf J n))) hrest.symm
        rw [List.map_cons, List.foldl_cons, htail, hspeaker]
        cases hn : n.heardFrom? h.speaker with
        | none =>
            have htype : (packetOf J n).type ≠ MessageType.MSG_CHAT_BROAD.code := by
              rw [ne_eq, type_packetOf J n h.speaker, hn]
              exact Bool.false_ne_true
            rw [List.filterMap_cons_none hn, Hearing.notice, if_neg htype]
        | some said =>
            have htype : (packetOf J n).type = MessageType.MSG_CHAT_BROAD.code := by
              rw [type_packetOf J n h.speaker, hn]
              rfl
            have hsaid : heardPacket J said = (h.speaker, packetOf J n) := by
              cases n with
              | chat u =>
                  cases hn
                  rfl
              | accepted | refused | system | users | told | pong =>
                  cases hn
            rw [List.filterMap_cons_some hn, Hearing.notice, if_pos htype, List.map_cons, hsaid]
            simp
      · have hskip : packetsTo d ((c, pkt) :: out) = packetsTo d out := by
          simp [packetsTo, hc]
        rw [hskip] at hout
        have hsame : (h.notice (.sent c pkt)).heard d = h.heard d := by
          rw [Hearing.notice]
          split
          · exact Function.update_of_ne (Ne.symm hc) _ _
          · rfl
        rw [List.map_cons, List.foldl_cons, ih (h.notice (.sent c pkt)) hout, hspeaker, hsame]

end Histories

section Agreement

variable {J : JsonLib} {w w' : Chat} {s s' : Service} {c : ConnId} {pkt : Packet}
  {trace : List Obs}

/-- The service puts `notices` into the inboxes, and the server sends them. -/
theorem Relayed.sends
    (h : Relayed J trace s) {out : List (ConnId × Packet)} (notices : ConnId → List Notice)
    (hpackets : ∀ d, packetsTo d out = (notices d).map (packetOf J))
    (hinbox : ∀ d, s'.inbox d = s.inbox d ++ notices d)
    (hheard : ∀ d, s'.audience.heard d = s.audience.heard d ++
      (notices d).filterMap (Notice.heardFrom? (hearing trace).speaker)) :
    Relayed J (trace ++ out.map fun m => Obs.sent m.1 m.2) s' where
  inbox d := by
    rw [sentTo_append, sentTo_sent, hpackets, hinbox, List.map_append, h.inbox]
  heard d := by
    rw [hearing_append, hearing_sent J _ out d (hpackets d), hheard, List.map_append, h.heard]

/-- The table holds the members of the service, each once. -/
structure Seats (w : Chat) (s : Service) : Prop where
  nodup : (recipients w.env.users).Nodup
  table : ∀ name d, w.env.users.lookup name = some d ↔ s.members d = some name

theorem Seats.mem_recipients
    (h : Seats w s) (d : ConnId) :
    d ∈ recipients w.env.users ↔ (s.members d).isSome := by
  rw [Option.isSome_iff_exists, recipients, List.mem_map]
  constructor
  · rintro ⟨⟨name, d⟩, hmem, rfl⟩
    exact ⟨name, (h.table name d).mp (AList.mem_lookup_iff.mpr hmem)⟩
  · rintro ⟨name, hname⟩
    exact ⟨⟨name, d⟩, AList.mem_lookup_iff.mp ((h.table name d).mpr hname), rfl⟩

/-- The names in the table are the names of the members. -/
theorem Seats.lists
    (h : Seats w s) :
    s.Lists (UserManager.usernames w) := by
  refine ⟨AList.keys_nodup _, ?_⟩
  intro name
  have hmem : name ∈ UserManager.usernames w ↔ ∃ d, w.env.users.lookup name = some d := by
    rw [UserManager.usernames, ← AList.mem_keys, ← AList.lookup_isSome,
      Option.isSome_iff_exists]
  simp only [hmem, h.table]

/-- An announcement goes to the members. -/
theorem Relayed.announce
    (h : Relayed J trace s) (hseats : Seats w s) (text : String) :
    Relayed J (trace ++ (announcement J w text).map fun m => Obs.sent m.1 m.2)
      (s.announce text w.now (UserManager.usernames w)) := by
  refine h.sends (fun d =>
    if (s.members d).isSome then [.system text w.now, .users (UserManager.usernames w)] else [])
    ?_ (Service.inbox_announce s text w.now _) ?_
  · intro d
    rw [announcement, packetsTo_append, packetsTo_map hseats.nodup, packetsTo_map hseats.nodup]
    simp only [hseats.mem_recipients]
    split <;> rfl
  · intro d
    split <;> simp [Service.announce, Notice.heardFrom?]

theorem agrees_initial
    (J : JsonLib) :
    Agrees J initial .empty where
  members d name := by
    simp [Service.empty, LoggedInAs, initial, World.init, Connection.new]
  inbox d := rfl
  heard d := rfl

/-- A member is a connection that is logged in. -/
theorem Agrees.isSome_iff
    (h : Agrees J w s) (d : ConnId) :
    (s.members d).isSome ↔ (w.conns d).state = .AUTHENTICATED := by
  rw [Option.isSome_iff_exists]
  constructor
  · rintro ⟨name, hname⟩
    exact ((h.members d name).mp hname).1
  · intro hstate
    exact ⟨_, (h.members d _).mpr ⟨hstate, rfl⟩⟩

theorem Agrees.eq_none
    (h : Agrees J w s) {d : ConnId} (hstate : (w.conns d).state ≠ .AUTHENTICATED) :
    s.members d = none := by
  rw [← Option.not_isSome_iff_eq_none, h.isSome_iff]
  exact hstate

/-- The table of the server and the members of the service are the sessions. -/
theorem Agrees.seats
    (h : Agrees J w s) (hs : Sessions w) :
    Seats w s where
  nodup := nodup_recipients hs
  table name d := by
    rw [hs.table, h.members]

/-- Packets that are sent change no session. -/
theorem Agrees.sends
    (h : Agrees J w s) {out : List (ConnId × Packet)} (hout : Sends w w' out)
    (hmembers : s'.members = s.members)
    (hrelayed : Relayed J (w.trace ++ out.map fun m => Obs.sent m.1 m.2) s') :
    Agrees J w' s' where
  toRelayed := hout.trace ▸ hrelayed
  members d name := by
    rw [hmembers, hout.quiet.loggedInAs]
    exact h.members d name

/-- A single notice that is no chat message. -/
theorem Agrees.post
    (h : Agrees J w s) {n : Notice} (hout : Sends w w' [(c, packetOf J n)])
    (hn : ∀ d, n.heardFrom? d = none) :
    Agrees J w' (s.post c n) := by
  refine h.sends hout rfl (h.toRelayed.sends (fun d => if d = c then [n] else []) ?_
    (Service.inbox_post s c n) ?_)
  · intro d
    by_cases hd : d = c
    · simp [packetsTo, hd]
    · simp [packetsTo, hd, Ne.symm hd]
  · intro d
    by_cases hd : d = c
    · simp [hd, hn, Service.post]
    · simp [hd, Service.post]

/-- An entry of the history that is no output and enters nobody. -/
theorem Relayed.note
    (h : Relayed J trace s) {o : Obs} (hsent : ∀ d, sentPacket d o = none)
    (hheard : ∀ h : Hearing, (h.notice o).heard = h.heard) :
    Relayed J (trace ++ [o]) s where
  inbox d := by
    rw [sentTo_append, h.inbox, sentTo, List.filterMap_cons_none (hsent d), List.filterMap_nil,
      List.append_nil]
  heard d := by
    rw [hearing_append, List.foldl_cons, List.foldl_nil, hheard, h.heard]

theorem Agrees.packet
    (h : Agrees J w s) (c : ConnId) (pkt : Packet) :
    Agrees J (w.note (.packet c pkt)) s where
  toRelayed := h.toRelayed.note (fun _ => rfl) fun _ => rfl
  members := h.members

theorem Agrees.loggedIn
    (h : Agrees J w s) (c : ConnId) (name : String) :
    Agrees J (loggedIn w c name) (s.enter c name) := by
  have htrace : (Tcp.loggedIn w c name).trace = w.trace ++ [.registered c name] := rfl
  constructor
  case members =>
    intro d name'
    have hconn : (Tcp.loggedIn w c name).conns d =
        if d = c then { w.conns c with username := name, state := .AUTHENTICATED }
        else w.conns d :=
      Function.update_apply _ _ _ _
    rw [Service.members_enter, Function.update_apply, LoggedInAs, hconn]
    split
    · simp
    · exact h.members d name'
  case toRelayed =>
    constructor
    · intro d
      rw [htrace, sentTo_append]
      exact (List.append_nil _).trans (h.inbox d)
    · intro d
      have henter : (s.enter c name).audience.heard d =
          if d = c then [] else s.audience.heard d :=
        Function.update_apply _ _ _ _
      have hnotice : (hearing (Tcp.loggedIn w c name).trace).heard d =
          if d = c then [] else (hearing w.trace).heard d := by
        rw [htrace, hearing_append]
        exact Function.update_apply _ _ _ _
      rw [henter, hnotice, h.heard]
      split <;> rfl

end Agreement

section Requests

variable {J : JsonLib} {w w' : Chat} {s : Service} {c : ConnId} {pkt : Packet}

/-- The service reacts to a request as the server has done. -/
def Serves (J : JsonLib) (s : Service) (c : ConnId) (r : Request) (w w' : Chat) : Prop :=
  ∃ s', s.Reacts c r s' ∧ Agrees J w' s' ∧ occurrences J w'.trace = occurrences J w.trace

theorem occurrences_sends
    {out : List (ConnId × Packet)} (hout : Sends w w' out) :
    occurrences J w'.trace = occurrences J w.trace := by
  obtain ⟨more, htrace, hsilent⟩ := hout.quiet.trace
  rw [htrace, occurrences_silent J hsilent]

/-- A request is refused. -/
theorem Agrees.refuses
    (h : Agrees J w s) {reason : String} {r : Request}
    (hr : s.Reacts c r (s.post c (.refused reason))) :
    Serves J s c r w (sendAck J w c false reason) := by
  have hout := sendAck_sends J w c false reason
  exact ⟨_, hr, h.post hout fun d => rfl, occurrences_sends hout⟩

/-- A login that is accepted is answered and announced. -/
theorem Agrees.login
    (hs : Sessions w) (hlt : c < w.allocated) (h : Agrees J w s) {name : String}
    (hstate : (w.conns c).state ≠ .AUTHENTICATED) (hne : name ≠ "")
    (hfree : name ∉ w.env.users) :
    Serves J s c (.login (some name)) w
      (broadcastUserList J
        (broadcastSystem J (sendAck J (Tcp.loggedIn w c name) c true "") (name ++ "上线"))) := by
  have hlookup : w.env.users.lookup name = none := AList.lookup_eq_none.mpr hfree
  have hin := h.loggedIn c name
  have hack := sendAck_sends J (Tcp.loggedIn w c name) c true ""
  have hacked := hin.post (n := .accepted) hack fun d => rfl
  have hseats := hacked.seats ((hs.login hlt hstate hlookup).quiet hack.quiet)
  have hannounce := announcement_sends J (sendAck J (Tcp.loggedIn w c name) c true "")
    (name ++ "上线")
  have hall := hacked.toRelayed.announce hseats (name ++ "上线")
  refine ⟨_, ?_, hacked.sends hannounce (Service.members_announce ..) hall, ?_⟩
  · refine .joins _ (h.eq_none hstate) hne ?_ hseats.lists
    intro d hd
    rw [← (h.seats hs).table, hlookup] at hd
    cases hd
  · rw [occurrences_sends hannounce, occurrences_sends hack]
    exact (occurrences_append J w.trace [.registered c name]).trans (List.append_nil _)

theorem handleLogin_serves
    (hs : Sessions w) (hlt : c < w.allocated) (h : Agrees J w s)
    (hcall : handleLogin J w c pkt = .ok w') :
    Serves J s c (.login ((J.parse pkt.body).bind fun j => (j.value "username" "").toOption))
      w w' := by
  unfold handleLogin at hcall
  split at hcall
  · next hstate =>
      cases hcall
      exact h.refuses (.alreadyIn ((h.isSome_iff c).mpr hstate))
  · next hstate =>
      have hout := h.eq_none hstate
      split at hcall
      · next hj =>
          cases hcall
          rw [hj]
          exact h.refuses (.unreadable hout)
      · next j hj =>
          obtain ⟨name, hname, hcall⟩ := Runs.map_eq_ok.mp hcall
          rw [hj, Option.bind_some, hname]
          split at hcall
          · next hempty =>
              rw [← hcall, hempty]
              exact h.refuses (.nameless hout)
          · next hne =>
              by_cases hmem : name ∈ w.env.users
              · obtain ⟨d, hd⟩ := Option.isSome_iff_exists.mp (AList.lookup_isSome.mpr hmem)
                rw [UserManager.add, if_pos hmem] at hcall
                rw [← hcall]
                exact h.refuses (.taken hout hne (((h.seats hs).table name d).mp hd))
              · rw [UserManager.add, if_neg hmem] at hcall
                rw [← hcall]
                exact Agrees.login hs hlt h hstate hne hmem

/-- A chat message goes to all other members. -/
theorem Agrees.say
    (hs : Sessions w) (hsound : s.Sound) (h : Agrees J w s)
    (hspeaker : (hearing w.trace).speaker = c) {content : String}
    (hstate : (w.conns c).state = .AUTHENTICATED) (hne : content ≠ "") :
    Serves J s c (.chat (some content)) w
      (UserManager.broadcastExcept w (chatPacket J content (w.conns c).username w.now) c) := by
  have hseats := h.seats hs
  have hout := sendAll_sends w ((recipients w.env.users).filter fun d => d ≠ c)
    (chatPacket J content (w.conns c).username w.now)
  have hin : s.members c = some (w.conns c).username := (h.members c _).mpr ⟨hstate, rfl⟩
  refine ⟨_, .speaks w.now hin hne, ?_, occurrences_sends hout⟩
  refine h.sends hout rfl (h.toRelayed.sends (fun d =>
    if (s.members d).isSome ∧ d ≠ c then
      [.chat { from_ := (w.conns c).username, content := content, now := w.now }]
    else
      []) ?_ (Service.inbox_say s c _) ?_)
  · intro d
    rw [packetsTo_map (hseats.nodup.filter _)]
    simp only [List.mem_filter, decide_eq_true_eq, hseats.mem_recipients]
    split <;> rfl
  · intro d
    simp only [hspeaker, Service.say, Audience.say, hsound.joined]
    split <;> simp [Notice.heardFrom?]

theorem handleChat_serves
    (hs : Sessions w) (hsound : s.Sound) (h : Agrees J w s)
    (hspeaker : (hearing w.trace).speaker = c) (hcall : handleChat J w c pkt = .ok w') :
    Serves J s c (.chat ((J.parse pkt.body).bind fun j => (j.value "content" "").toOption))
      w w' := by
  unfold handleChat at hcall
  split at hcall
  · next hstate =>
      cases hcall
      exact h.refuses (.stranger (h.eq_none hstate) trivial)
  · next hstate =>
      have hstate : (w.conns c).state = .AUTHENTICATED := not_not.mp hstate
      have hin := (h.isSome_iff c).mpr hstate
      split at hcall
      · next hj =>
          cases hcall
          rw [hj]
          exact ⟨s, .drops hin trivial, h, rfl⟩
      · next j hj =>
          obtain ⟨content, hcontent, hcall⟩ := Runs.map_eq_ok.mp hcall
          rw [hj, Option.bind_some, hcontent]
          split at hcall
          · next hempty =>
              rw [← hcall]
              exact ⟨s, .drops hin hempty, h, rfl⟩
          · next hne =>
              rw [← hcall]
              exact Agrees.say hs hsound h hspeaker hstate hne

theorem handlePrivate_serves
    (hs : Sessions w) (h : Agrees J w s) (hcall : handlePrivate J w c pkt = .ok w') :
    Serves J s c
      (.tell ((J.parse pkt.body).bind fun j =>
        (j.value "to" "").toOption.bind fun to_ =>
          (j.value "content" "").toOption.map fun content => (to_, content)))
      w w' := by
  unfold handlePrivate at hcall
  split at hcall
  · next hstate =>
      cases hcall
      exact h.refuses (.stranger (h.eq_none hstate) trivial)
  · next hstate =>
      have hstate : (w.conns c).state = .AUTHENTICATED := not_not.mp hstate
      have hin : s.members c = some (w.conns c).username := (h.members c _).mpr ⟨hstate, rfl⟩
      have hseats := h.seats hs
      split at hcall
      · next hj =>
          cases hcall
          rw [hj]
          exact ⟨s, .drops ((h.isSome_iff c).mpr hstate) trivial, h, rfl⟩
      · next j hj =>
          obtain ⟨to_, hto, hcall⟩ := Runs.bind_eq_ok.mp hcall
          obtain ⟨content, hcontent, hcall⟩ := Runs.map_eq_ok.mp hcall
          rw [hj, Option.bind_some, hto, hcontent]
          split at hcall
          · next hnobody =>
              rw [← hcall]
              refine h.refuses (.nobody ((h.isSome_iff c).mpr hstate) ?_)
              intro d hd
              rw [← hseats.table] at hd
              rw [UserManager.get, hd] at hnobody
              cases hnobody
          · next target htarget =>
              have hout := send_sends w target
                (privatePacket J content (w.conns c).username to_)
              rw [← hcall]
              exact ⟨_, .tells hin ((hseats.table to_ target).mp htarget),
                h.post (n := .told (w.conns c).username to_ content) hout fun d => rfl,
                occurrences_sends hout⟩

/-- Every packet but a logout is a request, and no more. -/
theorem onPacket_serves
    {onClose_ : Chat → ConnId → Chat} (hs : Sessions w) (hlt : c < w.allocated)
    (hsound : s.Sound) (h : Agrees J w s) (hspeaker : (hearing w.trace).speaker = c)
    (htype : MessageType.ofCode? pkt.type ≠ some .MSG_LOGOUT)
    (hcall : onPacket J onClose_ w c pkt = .ok w') :
    Serves J s c (meaning J pkt) w w' := by
  unfold onPacket at hcall
  unfold meaning
  split at hcall
  · next hcode =>
      rw [hcode]
      exact handleLogin_serves hs hlt h hcall
  · next hcode =>
      rw [hcode]
      exact handleChat_serves hs hsound h hspeaker hcall
  · next hcode =>
      rw [hcode]
      exact handlePrivate_serves hs h hcall
  · next hcode =>
      have hout := send_sends w c (userListPacket J w)
      rw [hcode]
      cases hcall
      exact ⟨_, .lists (h.seats hs).lists,
        h.post (n := .users (UserManager.usernames w)) hout fun d => rfl, occurrences_sends hout⟩
  · next hcode =>
      have hout := send_sends w c { type := MessageType.MSG_PONG.code, body := [] }
      rw [hcode]
      cases hcall
      exact ⟨_, .pongs, h.post (n := .pong) hout fun d => rfl, occurrences_sends hout⟩
  · next hcode =>
      exact absurd hcode htype
  · next hlogin hchat hprivate hlist hping hlogout =>
      cases hcall
      split
      · next hcode => exact absurd hcode hlogin
      · next hcode => exact absurd hcode hchat
      · next hcode => exact absurd hcode hprivate
      · next hcode => exact absurd hcode hlist
      · next hcode => exact absurd hcode hping
      · exact ⟨s, .silent, h, rfl⟩

end Requests

section Departures

variable {J : JsonLib} {w w' : Chat} {s : Service} {c : ConnId} {pkt : Packet}

/-- What the others are sent when a connection is closed. -/
def departure (J : JsonLib) (w : Chat) (c : ConnId) : List (ConnId × Packet) :=
  if (w.conns c).state = .AUTHENTICATED then
    announcement J (UserManager.remove w c) ((w.conns c).username ++ "离线")
  else
    []

theorem trace_close
    (J : JsonLib) (hopen : (w.conns c).state ≠ .CLOSED) :
    (close (closeCallback J) w c).trace =
      (w.trace ++ [.closed c]) ++ (departure J w c).map fun m => Obs.sent m.1 m.2 := by
  have hcallback : (onClose J ((w.removeFd (w.conns c).fd).note (.closed c)) c).trace =
      (w.trace ++ [.closed c]) ++ (departure J w c).map fun m => Obs.sent m.1 m.2 := by
    by_cases hstate : (w.conns c).state = .AUTHENTICATED
    · rw [departure, if_pos hstate]
      exact (onClose_announces J ((w.removeFd (w.conns c).fd).note (.closed c)) hstate).trace
    · have hsame : onClose J ((w.removeFd (w.conns c).fd).note (.closed c)) c =
          (w.removeFd (w.conns c).fd).note (.closed c) :=
        if_pos hstate
      rw [departure, if_neg hstate, hsame]
      exact (List.append_nil _).symm
  rw [close, if_neg hopen]
  exact hcallback

theorem occurrences_close
    (J : JsonLib) (hopen : (w.conns c).state ≠ .CLOSED) :
    occurrences J (close (closeCallback J) w c).trace =
      occurrences J w.trace ++ [.gone c] := by
  rw [trace_close J hopen, occurrences_silent, occurrences_append]
  · rfl
  · intro o ho
    obtain ⟨m, -, rfl⟩ := List.mem_map.mp ho
    trivial

/-- A connection that is closed leaves the service. -/
theorem Agrees.close
    (hl : Leaving c w) (hlt : c < w.allocated) (h : Agrees J w s)
    (hopen : (w.conns c).state ≠ .CLOSED) :
    ∃ s', s.Loses c s' ∧ Agrees J (close (closeCallback J) w c) s' := by
  have hcl := close_closes J hopen
  have htrace := trace_close J hopen
  have hsessions := hl.close (J := J) hlt
  have hclosed : Relayed J (w.trace ++ [.closed c]) s :=
    h.toRelayed.note (fun _ => rfl) fun _ => rfl
  have hmembers : ∀ d name, (s.part c).members d = some name ↔
      LoggedInAs (Tcp.close (closeCallback J) w c) d name := by
    intro d name
    rw [Service.members_part, Function.update_apply, LoggedInAs, hcl.conns d]
    by_cases hd : d = c
    · simp [hd]
    · simp only [if_neg hd]
      exact h.members d name
  by_cases hstate : (w.conns c).state = .AUTHENTICATED
  · have husers := hcl.users
    rw [if_pos hstate] at husers
    have hseats : Seats (UserManager.remove w c) (s.part c) := by
      constructor
      · have hnodup := nodup_recipients hsessions
        rw [husers] at hnodup
        exact hnodup
      · intro name d
        rw [hmembers, ← hsessions.table, husers]
        rfl
    have hparted : Relayed J (w.trace ++ [.closed c]) (s.part c) := ⟨hclosed.inbox, hclosed.heard⟩
    have hall := hparted.announce hseats ((w.conns c).username ++ "离线")
    refine ⟨_, .member (UserManager.remove w c).now ((h.members c _).mpr ⟨hstate, rfl⟩)
      hseats.lists, ?_⟩
    rw [departure, if_pos hstate] at htrace
    exact { toRelayed := htrace ▸ hall, members := hmembers }
  · rw [departure, if_neg hstate, List.map_nil, List.append_nil] at htrace
    refine ⟨s, .stranger (h.eq_none hstate), ?_⟩
    refine { toRelayed := htrace ▸ hclosed, members := ?_ }
    intro d name
    rw [← hmembers, Service.members_part, Function.update_apply]
    split
    · next hd =>
        rw [hd, h.eq_none hstate]
    · rfl

end Departures

section Refinement

variable {J : JsonLib} {w w' : Chat} {s : Service} {c : ConnId} {pkt : Packet}

/-- The server has done what the service may do. -/
def Serving (J : JsonLib) (w : Chat) : Prop :=
  ∃ s, Service.Reached (occurrences J w.trace) s ∧ Agrees J w s

theorem Serving.close
    (h : Serving J w) (hl : Leaving c w) (hlt : c < w.allocated) :
    Serving J (close (closeCallback J) w c) := by
  by_cases hopen : (w.conns c).state = .CLOSED
  · rw [Tcp.close, if_pos hopen]
    exact h
  · obtain ⟨s, hreached, hagrees⟩ := h
    obtain ⟨s', hloses, hagrees'⟩ := hagrees.close hl hlt hopen
    refine ⟨s', ?_, hagrees'⟩
    rw [occurrences_close J hopen]
    exact hreached.gone hloses

theorem Serving.handlePacket
    (h : Serving J w) (hs : Sessions w) (hlt : c < w.allocated)
    (hpkt : handlePacket (callbacks J) w c pkt = .ok w') :
    Serving J w' := by
  obtain ⟨s, hreached, hagrees⟩ := h
  have hnoted := hagrees.packet c pkt
  have hs := hs.note (.packet c pkt)
  have hlt : c < (w.note (.packet c pkt)).allocated := hlt
  have hspeaker : (hearing (w.note (.packet c pkt)).trace).speaker = c := by
    rw [World.note, hearing_append]
    rfl
  have hcall : onPacket J (closeCallback J) (w.note (.packet c pkt)) c pkt = .ok w' := hpkt
  have hrequest : occurrences J (w.note (.packet c pkt)).trace =
      occurrences J w.trace ++ [.request c (meaning J pkt)] :=
    occurrences_append J w.trace [.packet c pkt]
  by_cases htype : MessageType.ofCode? pkt.type = some .MSG_LOGOUT
  · have hsilent : meaning J pkt = .silent := by
      rw [meaning, htype]
    have hserving : Serving J (w.note (.packet c pkt)) := by
      refine ⟨s, ?_, hnoted⟩
      rw [hrequest, hsilent]
      exact hreached.request .silent
    simp only [onPacket, htype, handleLogOut, Except.ok.injEq] at hcall
    split at hcall
    · exact hcall ▸ hserving
    · obtain ⟨s', hreached', hagrees'⟩ := hserving
      have hremoved : Serving J (UserManager.remove (w.note (.packet c pkt)) c) :=
        ⟨s', hreached', ⟨hagrees'.toRelayed, hagrees'.members⟩⟩
      exact hcall ▸ hremoved.close (hs.leaving c).remove hlt
  · obtain ⟨s', hreacts, hagrees', hsame⟩ :=
      onPacket_serves hs hlt hreached.sound hnoted hspeaker htype hcall
    refine ⟨s', ?_, hagrees'⟩
    rw [hsame, hrequest]
    exact hreached.request hreacts

theorem Relayed.wrote
    {trace : List Obs} (h : Relayed J trace s) (c : ConnId) (outs : List Bytes) :
    Relayed J (trace ++ outs.map (Obs.wrote c)) s := by
  induction outs generalizing trace with
  | nil =>
      rw [List.map_nil, List.append_nil]
      exact h
  | cons bs outs ih =>
      have hnoted := ih (h.note (o := .wrote c bs) (fun _ => rfl) fun _ => rfl)
      rw [List.map_cons, ← List.singleton_append, ← List.append_assoc]
      exact hnoted

/-- Buffers, time stamps and bytes that are put out are no matter of the service. -/
theorem Serving.quiet
    (h : Serving J w) (hq : Quiet w w') (c : ConnId) (outs : List Bytes)
    (htrace : w'.trace = w.trace ++ outs.map (Obs.wrote c)) :
    Serving J w' := by
  obtain ⟨s, hreached, hagrees⟩ := h
  refine ⟨s, ?_, ?_⟩
  · rw [htrace, occurrences_silent]
    · exact hreached
    · intro o ho
      obtain ⟨bs, -, rfl⟩ := List.mem_map.mp ho
      trivial
  · refine { toRelayed := htrace ▸ hagrees.toRelayed.wrote c outs, members := ?_ }
    intro d name
    rw [hq.loggedInAs]
    exact hagrees.members d name

theorem Serving.writes
    (h : Serving J w) (hw : Writes c w w') :
    Serving J w' := by
  obtain ⟨outs, htrace, -⟩ := hw.output
  exact h.quiet hw.quiet c outs htrace

/-- A connection that is new is no member. -/
theorem Serving.accept
    (h : Serving J w) (hs : Sessions w) {fd : Fd} (haccept : accept w fd = .ok w') :
    Serving J w' := by
  obtain ⟨s, hreached, hagrees⟩ := h
  have hacc := accept_accepts haccept
  refine ⟨s, hacc.trace ▸ hreached, ?_⟩
  refine { toRelayed := hacc.trace ▸ hagrees.toRelayed, members := ?_ }
  intro d name
  rw [hagrees.members, LoggedInAs, LoggedInAs, hacc.conns]
  by_cases hd : d = w.allocated
  · rw [hd, Function.update_self, hs.fresh w.allocated le_rfl]
    simp [Connection.new]
  · rw [Function.update_of_ne hd]

theorem serving_rule
    (J : JsonLib) :
    CallbackRule J (Serving J) where
  receive _ c _ _ h :=
    h.quiet (quiet_setConn rfl rfl rfl) c [] (List.append_nil _).symm
  packet _ _ _ _ hin h hpkt := h.handlePacket hin.sessions hin.allocated hpkt
  close _ c hin h := h.close (hin.sessions.leaving c) hin.allocated
  wrote w c n h := h.writes (wrote_writes w c n)
  flushed w c _ _ h := h.writes (stopWriting_writes w c _ _)
  accept _ _ _ hs _ _ h haccept := h.accept hs haccept
  clock w now h := h.quiet (quiet_clock w now) 0 [] (List.append_nil _).symm

/-- In every state the server reaches, what it has done is what the chat service may do with
the packets handed over and the connections closed so far, in this order: its members are the
connections that are logged in, and each connection has been sent the notices of its inbox, in
this order and nothing else. -/
theorem server_refines_service
    {events : List Event} (hrun : runServer J events = .ok w) :
    ∃ s, Service.Reached (occurrences J w.trace) s ∧
      (∀ c name, s.members c = some name ↔ LoggedInAs w c name) ∧
        ∀ c, sentTo c w.trace = (s.inbox c).map (packetOf J) := by
  obtain ⟨s, hreached, hagrees⟩ :=
    (serving_rule J).run ⟨.empty, .start, agrees_initial J⟩ hrun
  exact ⟨s, hreached, hagrees.members, hagrees.inbox⟩

/-- `a` logs in, then `b`, who talks. -/
def talkRun : List Event :=
  loginRun ++ [.accept 6, arriveSecond secondLogin, arriveSecond smallTalk]

theorem talkRun_loggedIn :
    ∃ w, runServer talkJson talkRun = .ok w ∧ LoggedInAs w 0 "a" ∧ LoggedInAs w 1 "b" ∧
      ((hearing w.trace).heard 0).length = 1 := by
  obtain ⟨w, hrun, hw⟩ := Runs.exists_ok_of_any
    (runServer talkJson talkRun)
    (fun w => LoggedInAs w 0 "a" ∧ LoggedInAs w 1 "b" ∧
      ((hearing w.trace).heard 0).length = 1)
    (by decide +kernel)
  exact ⟨w, hrun, of_decide_eq_true hw⟩

theorem server_refines_service_talkRun :
    ∃ w s, runServer talkJson talkRun = .ok w ∧
      Service.Reached (occurrences talkJson w.trace) s ∧
        (∀ c name, s.members c = some name ↔ LoggedInAs w c name) ∧
          ∀ c, sentTo c w.trace = (s.inbox c).map (packetOf talkJson) := by
  obtain ⟨w, hrun, -⟩ := talkRun_loggedIn
  obtain ⟨s, hs⟩ := server_refines_service hrun
  exact ⟨w, s, hrun, hs⟩

/-- What two users have heard of third parties. -/
theorem heard_agree
    {a : Audience ConnId Utterance} (h : a.Faithful) {d d' : ConnId} {k k' : Nat}
    (hd : a.since d = some k) (hd' : a.since d' = some k') (hle : k ≤ k') :
    ((a.heard d').map (heardPacket J)).filter (fun said => said.1 ≠ d) <:+
      ((a.heard d).map (heardPacket J)).filter fun said => said.1 ≠ d' := by
  rw [List.filter_map, List.filter_map]
  exact (h.agree hd hd' hle).map _

/-- In every state the server reaches there is one order of chat messages such that each user
has been sent, since it was entered, the messages of all others from some point of this order
on, each once; and of two users, what one of them has been sent that comes from neither is the
end of what the other one has been sent that comes from neither. -/
theorem chats_in_one_order
    {events : List Event} (hrun : runServer J events = .ok w) :
    (∃ log : List (ConnId × Packet), ∀ d name, LoggedInAs w d name →
      ∃ k ≤ log.length, (hearing w.trace).heard d = (log.drop k).filter fun said => said.1 ≠ d) ∧
      ∀ d d' name name', LoggedInAs w d name → LoggedInAs w d' name' →
        ((hearing w.trace).heard d').filter (fun said => said.1 ≠ d) <:+
            ((hearing w.trace).heard d).filter (fun said => said.1 ≠ d') ∨
          ((hearing w.trace).heard d).filter (fun said => said.1 ≠ d') <:+
            ((hearing w.trace).heard d').filter fun said => said.1 ≠ d := by
  obtain ⟨s, hreached, hagrees⟩ :=
    (serving_rule J).run ⟨.empty, .start, agrees_initial J⟩ hrun
  have hsound := hreached.sound
  have hjoined : ∀ d name, LoggedInAs w d name → ∃ k, s.audience.since d = some k := by
    intro d name hd
    rw [← Option.isSome_iff_exists, hsound.joined, (hagrees.members d name).mpr hd]
    rfl
  constructor
  · refine ⟨s.audience.log.map (heardPacket J), ?_⟩
    intro d name hd
    obtain ⟨k, hk⟩ := hjoined d name hd
    obtain ⟨hle, hheard⟩ := hsound.faithful d k hk
    refine ⟨k, by rw [List.length_map]; exact hle, ?_⟩
    rw [hagrees.heard, hheard, Audience.saidByOthers, ← List.map_drop, List.filter_map]
    rfl
  · intro d d' name name' hd hd'
    obtain ⟨k, hk⟩ := hjoined d name hd
    obtain ⟨k', hk'⟩ := hjoined d' name' hd'
    rw [hagrees.heard, hagrees.heard]
    rcases Nat.le_total k k' with hle | hle
    · exact .inl (heard_agree hsound.faithful hk hk' hle)
    · exact .inr (heard_agree hsound.faithful hk' hk hle)

theorem chats_in_one_order_talkRun :
    ∃ w, runServer talkJson talkRun = .ok w ∧ LoggedInAs w 0 "a" ∧ LoggedInAs w 1 "b" ∧
      ((hearing w.trace).heard 0).length = 1 ∧
        ∃ log : List (ConnId × Packet), ∀ d name, LoggedInAs w d name →
          ∃ k ≤ log.length,
            (hearing w.trace).heard d = (log.drop k).filter fun said => said.1 ≠ d := by
  obtain ⟨w, hrun, ha, hb, hheard⟩ := talkRun_loggedIn
  exact ⟨w, hrun, ha, hb, hheard, (chats_in_one_order hrun).1⟩

end Refinement

end Tcp
end ChatRoom
