import ChatRoom.Tcp.PacketLimit
import ChatRoom.Tcp.Wiring

/-!
# What a connection can do before it logs in

Whatever a connection sends that has not logged in, short of a login that is
accepted, it is answered or closed, and nothing else happens
(`onPacket_connecting`).  It is not in the table of users, so a logout removes
nobody, and it has its descriptor for itself, so its registration is the only one
that changes.
-/

namespace ChatRoom
namespace Tcp

/-- What may come of a packet that changes nothing for the other connections. -/
inductive AnswersOrCloses (J : JsonLib) (c : ConnId) (w : Chat) : Chat → Prop where
  | nothing : AnswersOrCloses J c w w
  | answers (pkt : Packet) : AnswersOrCloses J c w (send w c pkt)
  | closes : AnswersOrCloses J c w (close (closeCallback J) w c)

/-- Nothing has changed but the connection `c`, its registration, and whether it is under
watch. -/
structure OthersUntouched (c : ConnId) (w w' : Chat) : Prop where
  users : w'.env.users = w.env.users
  conns : ∀ d, d ≠ c → w'.conns d = w.conns d
  contexts : ∀ fd, w.reactor.contexts fd ≠ some c → w'.reactor.contexts fd = w.reactor.contexts fd
  interest : ∀ fd, w.reactor.contexts fd ≠ some c → w'.reactor.interest fd = w.reactor.interest fd
  managed : ∀ d, d ≠ c → (d ∈ w'.env.managed ↔ d ∈ w.env.managed)

section Gate

variable {J : JsonLib} {w w' : Chat} {c : ConnId} {pkt : Packet}

/-- A logout of a connection that is not in the table of users closes it. -/
theorem handleLogOut_connecting
    (hsessions : Sessions w) (hstate : (w.conns c).state = .CONNECTING) :
    handleLogOut (closeCallback J) w c = close (closeCallback J) w c := by
  have hremoved : UserManager.remove w c = w := by
    have habsent : ∀ kv ∈ w.env.users.entries, kv.2 ≠ c := by
      rintro ⟨name, d⟩ hkv rfl
      have hauth := ((hsessions.table name d).mp (AList.mem_lookup_iff.mpr hkv)).1
      rw [hstate] at hauth
      cases hauth
    rw [UserManager.remove, removeFirst_of_absent habsent]
    rfl
  rw [handleLogOut, hstate, if_neg (by decide), hremoved]

/-- A packet of a connection that is not logged in answers or closes it, unless it is a login
that is accepted. -/
theorem onPacket_connecting
    (hsessions : Sessions w) (hstate : (w.conns c).state = .CONNECTING)
    (hlogin : ¬ (pkt.type = MessageType.MSG_LOGIN.code ∧ ∃ name, LogsInAs J w c pkt name))
    (hok : onPacket J (closeCallback J) w c pkt = .ok w') :
    AnswersOrCloses J c w w' := by
  have hout : (w.conns c).state ≠ .AUTHENTICATED := by
    rw [hstate]
    decide
  unfold onPacket at hok
  split at hok
  · next hcode =>
      have hno : ∀ name, ¬ LogsInAs J w c pkt name :=
        fun name h => hlogin ⟨MessageType.code_of_ofCode? hcode, name, h⟩
      obtain ⟨err, -, rfl⟩ := handleLogin_refusal hno hok
      exact .answers _
  · rw [handleChat, if_pos hout] at hok
    cases hok
    exact .answers _
  · rw [handlePrivate, if_pos hout] at hok
    cases hok
    exact .answers _
  · cases hok
    exact .answers _
  · cases hok
    exact .answers _
  · cases hok
    rw [handleLogOut_connecting hsessions hstate]
    exact .closes
  · cases hok
    exact .nothing

/-- An answer changes the interest in the connection that is answered only. -/
theorem interest_send
    (w : Chat) (c : ConnId) (pkt : Packet) {fd : Fd} (hfd : fd ≠ (w.conns c).fd) :
    (send w c pkt).reactor.interest fd = w.reactor.interest fd := by
  by_cases hwriting : (w.conns c).writing = true
  · simp [send, hwriting, World.setConn, World.note]
  · simp [send, hwriting, World.setConn, World.note, World.modifyFd,
      Reactor.interest_modifyFd_of_ne _ hfd]

theorem othersUntouched_send
    (hregistered : w.reactor.contexts (w.conns c).fd = some c) (pkt : Packet) :
    OthersUntouched c w (send w c pkt) := by
  have hsends := send_sends w c pkt
  constructor
  case users =>
    rw [hsends.env]
  case conns =>
    intro d hd
    rw [conns_send, Function.update_of_ne hd]
  case contexts =>
    intro fd _
    rw [hsends.contexts]
  case interest =>
    intro fd hfd
    exact interest_send w c pkt fun heq => hfd (heq ▸ hregistered)
  case managed =>
    intro d _
    rw [hsends.env]

/-- Nobody is told that a connection is gone that never logged in. -/
theorem close_connecting
    (hstate : (w.conns c).state = .CONNECTING) :
    close (closeCallback J) w c =
      ((((w.removeFd (w.conns c).fd).note (.closed c)).setManaged (w.env.managed.erase c)).setConn c
        { w.conns c with state := .CLOSED }).closeFd (w.conns c).fd := by
  have hquiet : onClose J ((w.removeFd (w.conns c).fd).note (.closed c)) c =
      (w.removeFd (w.conns c).fd).note (.closed c) := by
    rw [onClose]
    exact if_pos (by simp [World.removeFd, World.note, hstate])
  rw [close, if_neg (by simp [hstate])]
  simp only [closeCallback, hquiet]
  simp [ConnectionManager.remove, World.setConn, World.setManaged, World.note, World.removeFd]

theorem othersUntouched_close
    (hstate : (w.conns c).state = .CONNECTING)
    (hregistered : w.reactor.contexts (w.conns c).fd = some c) :
    OthersUntouched c w (close (closeCallback J) w c) := by
  have hother : ∀ fd, w.reactor.contexts fd ≠ some c → fd ≠ (w.conns c).fd :=
    fun fd hfd heq => hfd (heq ▸ hregistered)
  rw [close_connecting hstate]
  constructor
  case users =>
    rfl
  case conns =>
    intro d hd
    exact Function.update_of_ne hd _ _
  case contexts =>
    intro fd hfd
    exact Function.update_of_ne (hother fd hfd) _ _
  case interest =>
    intro fd hfd
    have hne := hother fd hfd
    exact (Function.update_of_ne hne _ _).trans (Function.update_of_ne hne _ _)
  case managed =>
    intro d hd
    exact UnorderedSet.mem_erase.trans (and_iff_right hd)

/-- In every state the server reaches, whatever packet an open connection hands over that is
not logged in: unless it is a login that is accepted, the connection is answered or closed, and
all other connections, their registrations and the users are as before. -/
theorem onPacket_connecting_othersUntouched
    (hreached : Reached J w) (hexists : c < w.allocated)
    (hstate : (w.conns c).state = .CONNECTING)
    (hlogin : ¬ (pkt.type = MessageType.MSG_LOGIN.code ∧ ∃ name, LogsInAs J w c pkt name))
    (hok : onPacket J (closeCallback J) w c pkt = .ok w') :
    AnswersOrCloses J c w w' ∧ OthersUntouched c w w' := by
  obtain ⟨hsessions, hwired⟩ := hreached.wired
  have hregistered := hwired.watched c (hwired.connecting c hexists hstate)
  have heffect := onPacket_connecting hsessions hstate hlogin hok
  refine ⟨heffect, ?_⟩
  cases heffect with
  | nothing =>
      exact ⟨rfl, fun _ _ => rfl, fun _ _ => rfl, fun _ _ => rfl, fun _ _ => Iff.rfl⟩
  | answers pkt' =>
      exact othersUntouched_send hregistered pkt'
  | closes =>
      exact othersUntouched_close hstate hregistered

/-- A packet of the stranger. -/
def strangerPacket : Packet where
  type := MessageType.MSG_LOGOUT.code
  body := []

/-- A second connection next to that of a user. -/
def strangerRun : List Event :=
  loginRun ++ [.accept 6]

theorem onPacket_connecting_othersUntouched_strangerRun :
    ∃ w w', runServer sampleJson strangerRun = .ok w ∧ LoggedInAs w 0 "a" ∧
      (w.conns 1).state = .CONNECTING ∧
      onPacket sampleJson (closeCallback sampleJson) w 1 strangerPacket = .ok w' ∧
        AnswersOrCloses sampleJson 1 w w' ∧ OthersUntouched 1 w w' := by
  obtain ⟨w, hrun, hw⟩ := Runs.exists_ok_of_any
    (runServer sampleJson strangerRun)
    (fun w => LoggedInAs w 0 "a" ∧ 1 < w.allocated ∧ (w.conns 1).state = .CONNECTING)
    (by decide +kernel)
  obtain ⟨huser, hexists, hstate⟩ := of_decide_eq_true hw
  have hlogin : ¬ (strangerPacket.type = MessageType.MSG_LOGIN.code ∧
      ∃ name, LogsInAs sampleJson w 1 strangerPacket name) :=
    fun h => absurd h.1 (by decide)
  have hok : onPacket sampleJson (closeCallback sampleJson) w 1 strangerPacket =
      .ok (handleLogOut (closeCallback sampleJson) w 1) := by
    rfl
  exact ⟨w, _, hrun, huser, hstate, hok,
    onPacket_connecting_othersUntouched (.between hrun) hexists hstate hlogin hok⟩

end Gate

end Tcp
end ChatRoom
