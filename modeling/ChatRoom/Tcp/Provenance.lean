import ChatRoom.Tcp.ServiceRefinement

/-!
# Where chat messages come from

Every chat message and every private message that is given to `send` answers the packet
that is being handled: it has the content of that packet and the name under which the
sender of that packet was entered last, and it goes to connections that are logged in, the
private one to nobody but the connection logged in under the name it is for
(`messages_warranted`).  All this is read off the history; documents that claim another
sender make no difference.
-/

namespace ChatRoom
namespace Tcp

/-- What an entry of the history says about the name of a connection. -/
def sessionIn (c : ConnId) : Obs → Option (Option String)
  | .registered d name => if d = c then some (some name) else none
  | .closed d => if d = c then some none else none
  | _ => none

/-- The name under which a connection has been entered and not been closed since. -/
def sessionOf (c : ConnId) (past : List Obs) : Option String :=
  (Runs.latest (sessionIn c) past).join

/-- The packet that an entry of the history hands over, and the connection it is from. -/
def handledIn : Obs → Option (ConnId × Packet)
  | .packet c pkt => some (c, pkt)
  | _ => none

/-- The packet that is being handled. -/
def handled (past : List Obs) : Option (ConnId × Packet) :=
  Runs.latest handledIn past

/-- The packet that is being handled is a chat message of another user. -/
def ChatWarranted (J : JsonLib) (past : List Obs) (d : ConnId) (pkt : Packet) : Prop :=
  ∃ c asked name content now, handled past = some (c, asked) ∧
    meaning J asked = .chat (some content) ∧ content ≠ "" ∧ sessionOf c past = some name ∧
      (sessionOf d past).isSome ∧ d ≠ c ∧ pkt = chatPacket J content name now

/-- The packet that is being handled is a message of a user for the one it goes to. -/
def PrivateWarranted (J : JsonLib) (past : List Obs) (d : ConnId) (pkt : Packet) : Prop :=
  ∃ c asked name to_ content, handled past = some (c, asked) ∧
    meaning J asked = .tell (some (to_, content)) ∧ sessionOf c past = some name ∧
      sessionOf d past = some to_ ∧ pkt = privatePacket J content name to_

/-- Chat messages and private messages that are sent are warranted by the history. -/
def Warranted (J : JsonLib) (past : List Obs) : Obs → Prop
  | .sent d pkt =>
      (pkt.type = MessageType.MSG_CHAT_BROAD.code → ChatWarranted J past d pkt) ∧
        (pkt.type = MessageType.MSG_PRIVATE.code → PrivateWarranted J past d pkt)
  | _ => True

/-- The history knows who is logged in under which name. -/
def Remembered (w : Chat) : Prop :=
  ∀ c name, sessionOf c w.trace = some name ↔ LoggedInAs w c name

section Warrants

variable {J : JsonLib} {past more : List Obs} {w w' : Chat} {c d : ConnId} {pkt : Packet}
  {out : List (ConnId × Packet)}

theorem latest_silent
    {β : Type} {f : Obs → Option β} (hf : ∀ o, o.Silent → f o = none)
    (hmore : ∀ o ∈ more, o.Silent) :
    Runs.latest f (past ++ more) = Runs.latest f past := by
  have hnone : Runs.latest f more = none := by
    rw [Runs.latest, List.findSome?_eq_none_iff]
    intro o ho
    exact hf o (hmore o (List.mem_reverse.mp ho))
  rw [Runs.latest_append, hnone, Option.none_or]

theorem sessionOf_silent
    (hmore : ∀ o ∈ more, o.Silent) (c : ConnId) :
    sessionOf c (past ++ more) = sessionOf c past := by
  rw [sessionOf, sessionOf, latest_silent ?_ hmore]
  intro o ho
  cases o with
  | sent | wrote =>
      rfl
  | packet | closed | registered =>
      exact absurd ho id

theorem handled_silent
    (hmore : ∀ o ∈ more, o.Silent) :
    handled (past ++ more) = handled past := by
  apply latest_silent ?_ hmore
  intro o ho
  cases o with
  | sent | wrote =>
      rfl
  | packet | closed | registered =>
      exact absurd ho id

/-- Output does not change what is warranted. -/
theorem warranted_silent
    (hmore : ∀ o ∈ more, o.Silent) (o : Obs) :
    Warranted J (past ++ more) o ↔ Warranted J past o := by
  cases o with
  | sent d pkt =>
      simp only [Warranted, ChatWarranted, PrivateWarranted, handled_silent hmore,
        sessionOf_silent hmore]
  | packet | closed | registered | wrote =>
      exact Iff.rfl

/-- Packets that the history warrants are sent one after the other. -/
theorem justified_sent
    (h : Runs.Justified (Warranted J) past) (hout : ∀ m ∈ out, Warranted J past (.sent m.1 m.2)) :
    Runs.Justified (Warranted J) (past ++ out.map fun m => Obs.sent m.1 m.2) := by
  induction out generalizing past with
  | nil =>
      rw [List.map_nil, List.append_nil]
      exact h
  | cons m out ih =>
      rw [List.forall_mem_cons] at hout
      have hsent := h.snoc hout.1
      have hrest := ih hsent fun m' hm' => by
        rw [warranted_silent]
        · exact hout.2 m' hm'
        · intro o ho
          rw [List.mem_singleton.mp ho]
          trivial
      rw [List.map_cons, ← List.singleton_append, ← List.append_assoc]
      exact hrest

/-- The packet is neither a chat message nor a private message. -/
def Packet.Plain (pkt : Packet) : Prop :=
  pkt.type ≠ MessageType.MSG_CHAT_BROAD.code ∧ pkt.type ≠ MessageType.MSG_PRIVATE.code

theorem warranted_of_plain
    (hplain : Packet.Plain pkt) :
    Warranted J past (.sent d pkt) :=
  ⟨fun h => absurd h hplain.1, fun h => absurd h hplain.2⟩

theorem plain_ackPacket
    (J : JsonLib) (ok : Bool) (err : String) :
    Packet.Plain (ackPacket J ok err) := by
  constructor <;> exact of_decide_eq_true rfl

theorem plain_announcement
    {text : String} {m : ConnId × Packet} (hm : m ∈ announcement J w text) :
    Packet.Plain m.2 := by
  rcases List.mem_append.mp hm with hm | hm
  · obtain ⟨d, -, rfl⟩ := List.mem_map.mp hm
    constructor <;> exact of_decide_eq_true rfl
  · obtain ⟨d, -, rfl⟩ := List.mem_map.mp hm
    constructor <;> exact of_decide_eq_true rfl

theorem Remembered.sends
    (h : Remembered w) (hout : Sends w w' out) :
    Remembered w' := by
  obtain ⟨more, htrace, hsilent⟩ := hout.quiet.trace
  intro c name
  rw [htrace, sessionOf_silent hsilent, hout.quiet.loggedInAs]
  exact h c name

theorem Remembered.mem_recipients
    (h : Remembered w) (hs : Sessions w) (hd : d ∈ recipients w.env.users) :
    (sessionOf d w.trace).isSome := by
  obtain ⟨⟨name, d⟩, hmem, rfl⟩ := List.mem_map.mp hd
  rw [Option.isSome_iff_exists]
  exact ⟨name, (h d name).mpr ((hs.table name d).mp (AList.mem_lookup_iff.mpr hmem))⟩

end Warrants

section Handlers

variable {J : JsonLib} {w w' : Chat} {c d : ConnId} {pkt : Packet}
  {out : List (ConnId × Packet)}

/-- What has been sent so far was warranted. -/
structure Honest (J : JsonLib) (w : Chat) : Prop where
  remembered : Remembered w
  warranted : Runs.Justified (Warranted J) w.trace

/-- Packets that are warranted are sent. -/
theorem Honest.sends
    (h : Honest J w) (hout : Sends w w' out)
    (hwarranted : ∀ m ∈ out, Warranted J w.trace (.sent m.1 m.2)) :
    Honest J w' where
  remembered := h.remembered.sends hout
  warranted := hout.trace ▸ justified_sent h.warranted hwarranted

theorem Honest.plain
    (h : Honest J w) (hout : Sends w w' out) (hplain : ∀ m ∈ out, Packet.Plain m.2) :
    Honest J w' := by
  exact h.sends hout fun m hm => warranted_of_plain (hplain m hm)

theorem Honest.refuses
    (h : Honest J w) (hout : Refuses J w c w') :
    Honest J w' := by
  obtain ⟨err, -, hout⟩ := hout
  refine h.plain hout ?_
  intro m hm
  rw [List.mem_singleton.mp hm]
  exact plain_ackPacket J false err

theorem Honest.loggedIn
    (h : Honest J w) (c : ConnId) (name : String) :
    Honest J (loggedIn w c name) where
  remembered := by
    intro d name'
    have hconn : (Tcp.loggedIn w c name).conns d =
        if d = c then { w.conns c with username := name, state := .AUTHENTICATED }
        else w.conns d :=
      Function.update_apply _ _ _ _
    have htrace : (Tcp.loggedIn w c name).trace = w.trace ++ [.registered c name] := rfl
    rw [htrace, sessionOf, Runs.latest_append, Runs.latest_singleton, LoggedInAs, hconn]
    by_cases hd : d = c
    · simp [sessionIn, hd]
    · simp only [sessionIn, if_neg (Ne.symm hd), if_neg hd, Option.none_or]
      exact h.remembered d name'
  warranted := h.warranted.snoc trivial

theorem Honest.login
    (h : Honest J w) (hcall : handleLogin J w c pkt = .ok w') :
    Honest J w' := by
  by_cases hlogs : ∃ name, LogsInAs J w c pkt name
  · obtain ⟨name, hlogs⟩ := hlogs
    obtain ⟨w₁, hok, hout⟩ := handleLogin_accepts hlogs
    obtain rfl : w' = w₁ := Except.ok.inj (hcall.symm.trans hok)
    refine (h.loggedIn c name).plain hout ?_
    rw [List.forall_mem_cons]
    exact ⟨plain_ackPacket J true "", fun m => plain_announcement⟩
  · exact h.refuses (handleLogin_refuses (not_exists.mp hlogs) hcall)

/-- The chat message of a user goes to other users. -/
theorem Honest.chat
    (h : Honest J w) (hs : Sessions w) (hhandled : handled w.trace = some (c, pkt))
    (htype : MessageType.ofCode? pkt.type = some .MSG_CHAT)
    (hcall : handleChat J w c pkt = .ok w') :
    Honest J w' := by
  by_cases hsaid : ∃ content, Says J w c pkt content
  · obtain ⟨content, hsaid⟩ := hsaid
    obtain ⟨w₁, hok, hout⟩ := handleChat_spreads hsaid
    obtain rfl : w' = w₁ := Except.ok.inj (hcall.symm.trans hok)
    obtain ⟨hstate, hne, j, hj, hcontent⟩ := hsaid
    refine h.sends hout ?_
    intro m hm
    obtain ⟨d, hd, rfl⟩ := List.mem_map.mp hm
    obtain ⟨hd, hother⟩ := List.mem_filter.mp hd
    refine ⟨fun _ => ?_, fun heq => ?_⟩
    · refine ⟨c, pkt, (w.conns c).username, content, w.now, hhandled, ?_, hne,
        (h.remembered c _).mpr ⟨hstate, rfl⟩, h.remembered.mem_recipients hs hd,
        of_decide_eq_true hother, rfl⟩
      rw [meaning, htype]
      simp only [hj, Option.bind_some, hcontent]
      rfl
    · exact absurd heq (of_decide_eq_true rfl)
  · rcases handleChat_refuses (not_exists.mp hsaid) hcall with hout | hout
    · exact h.refuses hout
    · exact h.plain hout fun m hm => absurd hm List.not_mem_nil

/-- The private message of a user goes to the user it is for. -/
theorem Honest.private_
    (h : Honest J w) (hs : Sessions w) (hhandled : handled w.trace = some (c, pkt))
    (htype : MessageType.ofCode? pkt.type = some .MSG_PRIVATE)
    (hcall : handlePrivate J w c pkt = .ok w') :
    Honest J w' := by
  by_cases htold : ∃ to_ content, Tells J w c pkt to_ content
  · obtain ⟨to_, content, hstate, hmem, j, hj, hto, hcontent⟩ := htold
    obtain ⟨target, htarget⟩ := Option.isSome_iff_exists.mp (AList.lookup_isSome.mpr hmem)
    have hout := send_sends w target (privatePacket J content (w.conns c).username to_)
    have hw : w' = send w target (privatePacket J content (w.conns c).username to_) := by
      simp only [handlePrivate, hstate, ne_eq, not_true_eq_false, if_false, hj, hto, hcontent,
        Except.map, Except.bind, UserManager.get, htarget, Except.ok.injEq] at hcall
      exact hcall.symm
    rw [hw]
    refine h.sends hout ?_
    intro m hm
    rw [List.mem_singleton.mp hm]
    refine ⟨fun heq => ?_, fun _ => ?_⟩
    · exact absurd heq (of_decide_eq_true rfl)
    · refine ⟨c, pkt, (w.conns c).username, to_, content, hhandled, ?_,
        (h.remembered c _).mpr ⟨hstate, rfl⟩,
        (h.remembered target to_).mpr ((hs.table to_ target).mp htarget), rfl⟩
      rw [meaning, htype]
      simp only [hj, Option.bind_some, hto, hcontent]
      rfl
  · have hno : ∀ to_ content, ¬ Tells J w c pkt to_ content :=
      fun to_ content htells => htold ⟨to_, content, htells⟩
    rcases handlePrivate_refuses hno hcall with hout | hout
    · exact h.refuses hout
    · exact h.plain hout fun m hm => absurd hm List.not_mem_nil

/-- A connection that is closed has no name any more. -/
theorem Honest.close
    (h : Honest J w) (c : ConnId) :
    Honest J (close (closeCallback J) w c) := by
  by_cases hopen : (w.conns c).state = .CLOSED
  · rw [Tcp.close, if_pos hopen]
    exact h
  · have hcl := close_closes J hopen
    have hsilent : ∀ o ∈ (departure J w c).map fun m => Obs.sent m.1 m.2, o.Silent := by
      intro o ho
      obtain ⟨m, -, rfl⟩ := List.mem_map.mp ho
      trivial
    have hplain : ∀ m ∈ departure J w c, Packet.Plain m.2 := by
      intro m hm
      unfold departure at hm
      split at hm
      · exact plain_announcement hm
      · exact absurd hm List.not_mem_nil
    constructor
    · intro d name
      rw [trace_close J hopen, sessionOf_silent hsilent, sessionOf, Runs.latest_append,
        Runs.latest_singleton, LoggedInAs, hcl.conns d]
      by_cases hd : d = c
      · simp [sessionIn, hd]
      · simp only [sessionIn, if_neg (Ne.symm hd), if_neg hd, Option.none_or]
        exact h.remembered d name
    · rw [trace_close J hopen]
      exact justified_sent (h.warranted.snoc trivial) fun m hm => warranted_of_plain (hplain m hm)

theorem Honest.handlePacket
    (h : Honest J w) (hs : Sessions w) (hpkt : handlePacket (callbacks J) w c pkt = .ok w') :
    Honest J w' := by
  have hnoted : Honest J (w.note (.packet c pkt)) := by
    constructor
    · intro d name
      rw [World.note, sessionOf, Runs.latest_append]
      exact h.remembered d name
    · exact h.warranted.snoc trivial
  have hs := hs.note (.packet c pkt)
  have hhandled : handled (w.note (.packet c pkt)).trace = some (c, pkt) := by
    rw [World.note, handled, Runs.latest_append]
    rfl
  have hanswer : ∀ reply : Packet, Packet.Plain reply →
      Honest J (send (w.note (.packet c pkt)) c reply) := by
    intro reply hplain
    refine hnoted.plain (send_sends _ c reply) ?_
    intro m hm
    rw [List.mem_singleton.mp hm]
    exact hplain
  have hcall : onPacket J (closeCallback J) (w.note (.packet c pkt)) c pkt = .ok w' := hpkt
  unfold onPacket at hcall
  split at hcall
  · exact hnoted.login hcall
  · next htype =>
      exact hnoted.chat hs hhandled htype hcall
  · next htype =>
      exact hnoted.private_ hs hhandled htype hcall
  · cases hcall
    refine hanswer _ ?_
    constructor <;> exact of_decide_eq_true rfl
  · cases hcall
    refine hanswer _ ?_
    constructor <;> exact of_decide_eq_true rfl
  · cases hcall
    unfold handleLogOut
    split
    · exact hnoted
    · have hremoved : Honest J (UserManager.remove (w.note (.packet c pkt)) c) :=
        ⟨hnoted.remembered, hnoted.warranted⟩
      exact hremoved.close c
  · cases hcall
    exact hnoted

end Handlers

section Runs

variable {J : JsonLib} {w w' : Chat} {c : ConnId}

/-- Buffers, time stamps and bytes that are put out are warranted. -/
theorem Honest.quiet
    (h : Honest J w) (hq : Quiet w w') (c : ConnId) (outs : List Bytes)
    (htrace : w'.trace = w.trace ++ outs.map (Obs.wrote c)) :
    Honest J w' := by
  have hsilent : ∀ o ∈ outs.map (Obs.wrote c), o.Silent := by
    intro o ho
    obtain ⟨bs, -, rfl⟩ := List.mem_map.mp ho
    trivial
  constructor
  · intro d name
    rw [htrace, sessionOf_silent hsilent, hq.loggedInAs]
    exact h.remembered d name
  · rw [htrace]
    refine h.warranted.append ?_
    intro o ho past
    obtain ⟨bs, -, rfl⟩ := List.mem_map.mp ho
    trivial

theorem Honest.writes
    (h : Honest J w) (hw : Writes c w w') :
    Honest J w' := by
  obtain ⟨outs, htrace, -⟩ := hw.output
  exact h.quiet hw.quiet c outs htrace

/-- A connection that is new has no name. -/
theorem Honest.accept
    (h : Honest J w) (hs : Sessions w) {fd : Fd} (haccept : accept w fd = .ok w') :
    Honest J w' := by
  have hacc := accept_accepts haccept
  refine ⟨?_, hacc.trace ▸ h.warranted⟩
  intro d name
  rw [hacc.trace, h.remembered, LoggedInAs, LoggedInAs, hacc.conns]
  by_cases hd : d = w.allocated
  · rw [hd, Function.update_self, hs.fresh w.allocated le_rfl]
    simp [Connection.new]
  · rw [Function.update_of_ne hd]

theorem honest_initial
    (J : JsonLib) :
    Honest J initial where
  remembered d name := by
    simp [sessionOf, LoggedInAs, initial, World.init, Connection.new]
  warranted := Runs.justified_nil

theorem honest_rule
    (J : JsonLib) :
    CallbackRule J (Honest J) where
  receive _ c _ _ h :=
    h.quiet (quiet_setConn rfl rfl rfl) c [] (List.append_nil _).symm
  packet _ _ _ _ hin h hpkt := h.handlePacket hin.sessions hpkt
  close _ c _ h := h.close c
  wrote w c n h := h.writes (wrote_writes w c n)
  flushed w c _ _ h := h.writes (stopWriting_writes w c _ _)
  accept _ _ _ hs _ _ h haccept := h.accept hs haccept
  clock w now h := h.quiet (quiet_clock w now) 0 [] (List.append_nil _).symm

/-- In every run, whenever a chat message or a private message is given to `send`, it is made
of the packet that is being handled and of the name under which the sender of that packet was
entered last; a chat message goes to another user, and a private message to the connection
that is logged in under the name it is for. -/
theorem messages_warranted
    {events : List Event} (hrun : runServer J events = .ok w) :
    Runs.Justified (Warranted J) w.trace := by
  exact ((honest_rule J).run (honest_initial J) hrun).warranted

theorem messages_warranted_talkRun :
    ∃ w, runServer talkJson talkRun = .ok w ∧
      .sent 0 (chatPacket talkJson "hi" "b" 0) ∈ w.trace ∧
        Runs.Justified (Warranted talkJson) w.trace := by
  obtain ⟨w, hrun, hw⟩ := Runs.exists_ok_of_any
    (runServer talkJson talkRun)
    (fun w => Obs.sent 0 (chatPacket talkJson "hi" "b" 0) ∈ w.trace)
    (by decide +kernel)
  exact ⟨w, hrun, of_decide_eq_true hw, messages_warranted hrun⟩

end Runs

end Tcp
end ChatRoom
