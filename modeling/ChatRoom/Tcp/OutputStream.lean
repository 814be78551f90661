import ChatRoom.Tcp.ServiceRefinement
import ChatRoom.Tcp.WritePath

/-!
# What the server puts out

In a run of the whole server, for every connection: the bytes that its socket has accepted
and the bytes that wait are the encodings of the packets given to `send`, in this order,
and while the connection is registered the reactor waits for the socket whenever bytes
wait (`output_accounted`).  A connection that logs in after it was closed is sent packets
too, and asks the reactor for a descriptor that may belong to another connection by then;
this takes nothing from the other one.
-/

namespace ChatRoom
namespace Tcp

open Socket

/-- The output of all connections is accounted for. -/
structure Outgoing (w : Chat) : Prop where
  users : ∀ d ∈ recipients w.env.users, d < w.allocated
  watched : w.reactor.Watched
  stream : ∀ c, (outbox w c).stream = (sentTo c w.trace).flatMap encode
  fresh : ∀ c, w.allocated ≤ c → (w.conns c).writeBuf.readable = []
  flagged : ∀ c, (w.conns c).writeBuf.readable ≠ [] → (w.conns c).writing = true
  armed : ∀ c, Registered w c → (w.conns c).writing = true →
    w.reactor.awaitsOutput (w.conns c).fd = true

/-- Nothing has been sent or put out. -/
structure OutputKept (w w' : Chat) : Prop where
  allocated : w'.allocated = w.allocated
  fd : ∀ c, (w'.conns c).fd = (w.conns c).fd
  writeBuf : ∀ c, (w'.conns c).writeBuf = (w.conns c).writeBuf
  writing : ∀ c, (w'.conns c).writing = (w.conns c).writing
  sent : ∀ c, sentTo c w'.trace = sentTo c w.trace
  accepted : ∀ c, acceptedBytes c w'.trace = acceptedBytes c w.trace

section Operations

variable {J : JsonLib} {w w' : Chat} {c : ConnId} {pkt : Packet}

theorem stream_eq
    (w : Chat) (c : ConnId) :
    (outbox w c).stream = acceptedBytes c w.trace ++ (w.conns c).writeBuf.readable := by
  rfl

/-- Operations that are not about output may change the users, and the reactor for
connections that are not registered then. -/
theorem Outgoing.kept
    (h : Outgoing w) (hkept : OutputKept w w')
    (husers : ∀ d ∈ recipients w'.env.users, d < w'.allocated) (hwatched : w'.reactor.Watched)
    (hregistered : ∀ c, Registered w' c → Registered w c ∧
      w'.reactor.interest (w.conns c).fd = w.reactor.interest (w.conns c).fd) :
    Outgoing w' where
  users := husers
  watched := hwatched
  stream d := by
    rw [stream_eq, hkept.accepted, hkept.writeBuf, hkept.sent]
    exact h.stream d
  fresh d hd := by
    rw [hkept.writeBuf]
    exact h.fresh d (hkept.allocated ▸ hd)
  flagged d := by
    rw [hkept.writeBuf, hkept.writing]
    exact h.flagged d
  armed d hreg := by
    obtain ⟨hreg, hinterest⟩ := hregistered d hreg
    rw [hkept.writing, hkept.fd, Reactor.awaitsOutput, hinterest]
    exact h.armed d hreg

/-- The reactor stays as it is. -/
theorem Outgoing.same
    (h : Outgoing w) (hkept : OutputKept w w')
    (husers : ∀ d ∈ recipients w'.env.users, d < w'.allocated) (hreactor : w'.reactor = w.reactor) :
    Outgoing w' := by
  refine h.kept hkept husers (hreactor ▸ h.watched) ?_
  intro d hreg
  rw [Registered, hkept.fd, hreactor] at hreg
  exact ⟨hreg, by rw [hreactor]⟩

theorem Outgoing.note
    (h : Outgoing w) {o : Obs} (hsent : ∀ d, sentPacket d o = none)
    (hwrote : ∀ d, acceptedBytes d [o] = []) :
    Outgoing (w.note o) := by
  refine h.same ?_ h.users rfl
  constructor
  case sent =>
    intro d
    rw [World.note, sentTo_append, sentTo, sentTo, List.filterMap_cons_none (hsent d),
      List.filterMap_nil, List.append_nil]
  case accepted =>
    intro d
    have hnone := hwrote d
    rw [acceptedBytes] at hnone
    rw [World.note, acceptedBytes, List.flatMap_append, hnone, List.append_nil]
    rfl
  all_goals
    intros
    rfl

theorem reactor_send
    (w : Chat) (c : ConnId) (pkt : Packet) :
    (send w c pkt).reactor =
      if (w.conns c).writing = true then w.reactor
      else w.reactor.modifyFd (w.conns c).fd EPOLLINOUT := by
  by_cases hwriting : (w.conns c).writing = true
  · simp [send, hwriting, World.setConn, World.note]
  · simp [send, hwriting, World.setConn, World.note, World.modifyFd]

/-- `send` arms its descriptor at most, also if it belongs to another connection. -/
theorem Outgoing.send
    (h : Outgoing w) (hlt : c < w.allocated) (pkt : Packet) :
    Outgoing (send w c pkt) := by
  have hout := send_sends w c pkt
  have hother : ∀ d, d ≠ c → (Tcp.send w c pkt).conns d = w.conns d := by
    intro d hd
    rw [conns_send, Function.update_of_ne hd]
  have hself : (Tcp.send w c pkt).conns c =
      { w.conns c with
        writeBuf := (w.conns c).writeBuf.append (encode pkt)
        writing := true } := by
    rw [conns_send, Function.update_self]
  have haccepted : ∀ d, acceptedBytes d (Tcp.send w c pkt).trace = acceptedBytes d w.trace := by
    intro d
    rw [hout.trace, acceptedBytes, List.flatMap_append]
    exact List.append_nil _
  have hsent : ∀ d, sentTo d (Tcp.send w c pkt).trace =
      sentTo d w.trace ++ packetsTo d [(c, pkt)] := by
    intro d
    rw [hout.trace, sentTo_append, sentTo_sent]
  constructor
  case users =>
    rw [hout.env, hout.allocated]
    exact h.users
  case watched =>
    rw [reactor_send]
    split
    · exact h.watched
    · exact h.watched.modifyFd _ _
  case stream =>
    intro d
    rw [stream_eq, haccepted, hsent, hout.output, ← List.append_assoc, ← stream_eq, h.stream,
      List.flatMap_append]
  case fresh =>
    intro d hd
    rw [hout.allocated] at hd
    rw [hother d (Nat.ne_of_gt (Nat.lt_of_lt_of_le hlt hd))]
    exact h.fresh d hd
  case flagged =>
    intro d
    by_cases hd : d = c
    · rw [hd, hself]
      exact fun _ => rfl
    · rw [hother d hd]
      exact h.flagged d
  case armed =>
    intro d hreg hwriting
    rw [Registered, hout.quiet.fd, hout.contexts] at hreg
    have hwatched := h.watched (w.conns d).fd (by rw [hreg]; rfl)
    rw [hout.quiet.fd, reactor_send]
    split
    · next halready =>
        by_cases hd : d = c
        · exact h.armed d hreg (hd ▸ halready)
        · rw [hother d hd] at hwriting
          exact h.armed d hreg hwriting
    · next hidle =>
        by_cases hfd : (w.conns d).fd = (w.conns c).fd
        · rw [← hfd, Reactor.awaitsOutput_modifyFd hwatched]
          rfl
        · have hd : d ≠ c := fun heq => hfd (congrArg (fun d => (w.conns d).fd) heq)
          rw [hother d hd] at hwriting
          rw [Reactor.awaitsOutput, Reactor.interest_modifyFd_of_ne _ hfd]
          exact h.armed d hreg hwriting

theorem Outgoing.wrote
    (h : Outgoing w) (c : ConnId) (n : Nat) :
    Outgoing (wrote w c n) := by
  have hother : ∀ d, d ≠ c → (Tcp.wrote w c n).conns d = w.conns d := by
    intro d hd
    simp [Tcp.wrote, World.setConn, World.note, hd]
  have hself : (Tcp.wrote w c n).conns c =
      { w.conns c with
        writeBuf := (w.conns c).writeBuf.consume n
        lastActive := w.now } := by
    simp [Tcp.wrote, World.setConn]
  have hquiet := (wrote_writes w c n).quiet
  have hnonempty : ∀ d, ((Tcp.wrote w c n).conns d).writeBuf.readable ≠ [] →
      (w.conns d).writeBuf.readable ≠ [] := by
    intro d hne hempty
    by_cases hd : d = c
    · subst hd
      rw [hself, Buffer.readable_consume, hempty, List.drop_nil] at hne
      exact hne rfl
    · rw [hother d hd] at hne
      exact hne hempty
  have hwriting : ∀ d, ((Tcp.wrote w c n).conns d).writing = (w.conns d).writing := by
    intro d
    by_cases hd : d = c
    · rw [hd, hself]
    · rw [hother d hd]
  have hsent : ∀ d, sentTo d (Tcp.wrote w c n).trace = sentTo d w.trace := by
    intro d
    exact (sentTo_append d w.trace [_]).trans (List.append_nil _)
  constructor
  case users =>
    exact h.users
  case watched =>
    exact h.watched
  case stream =>
    intro d
    rw [hsent, ← h.stream]
    by_cases hd : d = c
    · rw [hd, outbox_wrote, Outbox.stream_take]
    · rw [stream_eq, stream_eq, hother d hd]
      simp [Tcp.wrote, World.setConn, World.note, acceptedBytes, Ne.symm hd]
  case fresh =>
    intro d hd
    by_contra hne
    exact hnonempty d hne (h.fresh d hd)
  case flagged =>
    intro d hne
    rw [hwriting]
    exact h.flagged d (hnonempty d hne)
  case armed =>
    intro d hreg
    rw [Registered, hquiet.fd, hquiet.contexts] at hreg
    rw [hwriting, hquiet.fd]
    exact h.armed d hreg

/-- Nobody else is registered under the descriptor that rests. -/
theorem Outgoing.flushed
    (h : Outgoing w) (halone : Alone c w) (hempty : (w.conns c).writeBuf.readableBytes = 0) :
    Outgoing ((w.modifyFd (w.conns c).fd EPOLLIN).setConn c
      { w.conns c with writing := false }) := by
  have hnone : (w.conns c).writeBuf.readable = [] := by
    rw [← List.length_eq_zero_iff, Buffer.length_readable, hempty]
  have hother : ∀ d, d ≠ c →
      (((w.modifyFd (w.conns c).fd EPOLLIN).setConn c
        { w.conns c with writing := false }).conns d) = w.conns d := by
    intro d hd
    simp [World.setConn, World.modifyFd, hd]
  have hself : (((w.modifyFd (w.conns c).fd EPOLLIN).setConn c
      { w.conns c with writing := false }).conns c) = { w.conns c with writing := false } := by
    simp [World.setConn]
  have hbuf : ∀ d, (((w.modifyFd (w.conns c).fd EPOLLIN).setConn c
      { w.conns c with writing := false }).conns d).writeBuf = (w.conns d).writeBuf := by
    intro d
    by_cases hd : d = c
    · rw [hd, hself]
    · rw [hother d hd]
  constructor
  case users =>
    exact h.users
  case watched =>
    exact h.watched.modifyFd _ _
  case stream =>
    intro d
    rw [stream_eq, hbuf]
    exact h.stream d
  case fresh =>
    intro d hd
    rw [hbuf]
    exact h.fresh d hd
  case flagged =>
    intro d hne
    by_cases hd : d = c
    · rw [hbuf, hd] at hne
      exact absurd hnone hne
    · rw [hother d hd] at hne ⊢
      exact h.flagged d hne
  case armed =>
    intro d hreg hwriting
    by_cases hd : d = c
    · rw [hd, hself] at hwriting
      cases hwriting
    · rw [hother d hd] at hwriting ⊢
      rw [Registered, hother d hd] at hreg
      have hreg : w.reactor.contexts (w.conns d).fd = some d :=
        (congrFun (Reactor.contexts_modifyFd w.reactor (w.conns c).fd EPOLLIN) _).symm.trans hreg
      have hfd : (w.conns d).fd ≠ (w.conns c).fd := by
        intro heq
        exact hd (halone d (heq ▸ hreg))
      have hinterest := Reactor.interest_modifyFd_of_ne w.reactor hfd EPOLLIN
      have harmed := h.armed d hreg hwriting
      rw [Reactor.awaitsOutput, ← hinterest] at harmed
      exact harmed

theorem outputKept_setConn
    {conn : Connection} (hfd : conn.fd = (w.conns c).fd)
    (hbuf : conn.writeBuf = (w.conns c).writeBuf)
    (hwriting : conn.writing = (w.conns c).writing) :
    OutputKept w (w.setConn c conn) := by
  constructor
  case fd | writeBuf | writing =>
    intro d
    by_cases hd : d = c
    · subst hd
      simp [World.setConn, hfd, hbuf, hwriting]
    · simp [World.setConn, hd]
  all_goals
    intros
    rfl

/-- A connection is entered under a name. -/
theorem Outgoing.loggedIn
    (h : Outgoing w) (hlt : c < w.allocated) (name : String) :
    Outgoing (loggedIn w c name) := by
  have hnoted : Outgoing (w.note (.registered c name)) :=
    h.note (fun _ => rfl) fun _ => rfl
  have husers : ∀ d ∈ recipients (w.env.users.insert name c), d < w.allocated := by
    intro d hd
    obtain ⟨⟨name', d⟩, hmem, rfl⟩ := List.mem_map.mp hd
    have hlookup := AList.mem_lookup_iff.mpr hmem
    by_cases hname : name' = name
    · rw [hname, AList.lookup_insert] at hlookup
      cases hlookup
      exact hlt
    · rw [AList.lookup_insert_ne hname] at hlookup
      exact h.users d (List.mem_map.mpr ⟨_, AList.mem_lookup_iff.mp hlookup, rfl⟩)
  have hentered : Outgoing ((w.setUsers (w.env.users.insert name c)).note (.registered c name)) :=
    ⟨husers, hnoted.watched, hnoted.stream, hnoted.fresh, hnoted.flagged, hnoted.armed⟩
  exact hentered.same (outputKept_setConn rfl rfl rfl) husers rfl

theorem mem_of_mem_removeFirst
    {users : UserTable} {d : ConnId} (hd : d ∈ recipients (UserManager.removeFirst users c)) :
    d ∈ recipients users := by
  obtain ⟨⟨name, d⟩, hmem, rfl⟩ := List.mem_map.mp hd
  unfold UserManager.removeFirst at hmem
  split at hmem
  · next kv hfind =>
      have hlookup := AList.mem_lookup_iff.mpr hmem
      by_cases hname : name = kv.1
      · rw [hname, AList.lookup_erase] at hlookup
        cases hlookup
      · rw [AList.lookup_erase_ne hname] at hlookup
        exact List.mem_map.mpr ⟨_, AList.mem_lookup_iff.mp hlookup, rfl⟩
  · exact List.mem_map.mpr ⟨_, hmem, rfl⟩

theorem Outgoing.remove
    (h : Outgoing w) (c : ConnId) :
    Outgoing (UserManager.remove w c) :=
  ⟨fun d hd => h.users d (mem_of_mem_removeFirst hd), h.watched, h.stream, h.fresh, h.flagged,
    h.armed⟩

/-- A connection leaves the reactor. -/
theorem Outgoing.detach
    (h : Outgoing w) (c : ConnId) :
    Outgoing ((w.removeFd (w.conns c).fd).note (.closed c)) := by
  have hremoved : Outgoing (w.removeFd (w.conns c).fd) := by
    refine h.kept ?_ h.users (h.watched.removeFd _) ?_
    · constructor <;> intros <;> rfl
    · intro d hreg
      by_cases hfd : (w.conns d).fd = (w.conns c).fd
      · have hnone : (w.removeFd (w.conns c).fd).reactor.contexts (w.conns d).fd = none := by
          rw [hfd]
          exact Function.update_self _ _ _
        exact absurd (hnone.symm.trans hreg) (by simp)
      · exact ⟨(Function.update_of_ne hfd _ _).symm.trans hreg, Function.update_of_ne hfd _ _⟩
  exact hremoved.note (fun _ => rfl) fun _ => rfl

/-- A connection that has left the reactor is released. -/
theorem Outgoing.release
    (h : Outgoing w) (hfree : w.reactor.contexts (w.conns c).fd = none) :
    Outgoing (released w c) := by
  have hforgotten : Outgoing (ConnectionManager.remove w c) :=
    ⟨h.users, h.watched, h.stream, h.fresh, h.flagged, h.armed⟩
  have hmarked : Outgoing ((ConnectionManager.remove w c).setConn c
      { w.conns c with state := .CLOSED }) :=
    hforgotten.same (outputKept_setConn rfl rfl rfl) h.users rfl
  refine hmarked.kept ?_ h.users (hmarked.watched.descriptorClosed hfree) ?_
  · constructor <;> intros <;> rfl
  · intro d hreg
    refine ⟨hreg, Function.update_of_ne ?_ _ _⟩
    intro hfd
    have hsame : ((ConnectionManager.remove w c).setConn c
        { w.conns c with state := .CLOSED }).reactor.contexts (w.conns c).fd = some d :=
      hfd ▸ hreg
    exact absurd (hfree.symm.trans hsame) (by simp)

/-- A new connection has nothing to write. -/
theorem Outgoing.accept
    (h : Outgoing w) {fd : Fd} (haccept : accept w fd = .ok w') :
    Outgoing w' := by
  have hacc := accept_accepts haccept
  have hreactor : w'.reactor.Watched ∧
      ∀ fd', fd' ≠ fd → w'.reactor.interest fd' = w.reactor.interest fd' := by
    obtain ⟨w₁, hstart, rfl⟩ := Runs.map_eq_ok.mp haccept
    obtain ⟨r, hadd, rfl⟩ := Runs.map_eq_ok.mp hstart
    have hnew : ((newConnection w fd).conns w.allocated).fd = fd := by
      simp [newConnection, World.setConn, Connection.new]
    rw [hnew] at hadd
    refine ⟨h.watched.addFd hadd, ?_⟩
    obtain ⟨-, rfl⟩ := Reactor.addFd_eq_ok hadd
    intro fd' hne
    exact Function.update_of_ne hne _ _
  have hself : w'.conns w.allocated = Connection.new fd w.now := by
    rw [hacc.conns, Function.update_self]
  have hother : ∀ d, d ≠ w.allocated → w'.conns d = w.conns d := by
    intro d hd
    rw [hacc.conns, Function.update_of_ne hd]
  constructor
  case users =>
    rw [hacc.users, hacc.allocated]
    exact fun d hd => Nat.lt_succ_of_lt (h.users d hd)
  case watched =>
    exact hreactor.1
  case stream =>
    intro d
    rw [stream_eq, hacc.trace, ← h.stream d, stream_eq]
    by_cases hd : d = w.allocated
    · rw [hd, hself, h.fresh w.allocated le_rfl]
      exact congrArg _ Buffer.readable_new
    · rw [hother d hd]
  case fresh =>
    intro d hd
    rw [hacc.allocated] at hd
    rw [hother d (Nat.ne_of_gt hd)]
    exact h.fresh d (Nat.le_of_succ_le hd)
  case flagged =>
    intro d hne
    by_cases hd : d = w.allocated
    · rw [hd, hself] at hne
      exact absurd Buffer.readable_new hne
    · rw [hother d hd] at hne ⊢
      exact h.flagged d hne
  case armed =>
    intro d hreg hwriting
    by_cases hd : d = w.allocated
    · rw [hd, hself] at hwriting
      cases hwriting
    · rw [Registered, hother d hd, hacc.contexts, Function.update_apply] at hreg
      rw [hother d hd] at hwriting ⊢
      split at hreg
      · exact absurd (Option.some.inj hreg).symm hd
      · next hfd =>
          rw [Reactor.awaitsOutput, hreactor.2 _ hfd]
          exact h.armed d hreg hwriting

theorem outgoing_initial :
    Outgoing initial where
  users d hd := absurd hd List.not_mem_nil
  watched := Reactor.watched_new
  stream _ := rfl
  fresh _ _ := rfl
  flagged _ hne := absurd rfl hne
  armed _ hreg := by
    cases hreg

theorem outgoing_rule
    (J : JsonLib) :
    OperationRule J Outgoing where
  users _ h := h.users
  receive _ _ _ _ h := h.same (outputKept_setConn rfl rfl rfl) h.users rfl
  packet _ _ _ h := h.note (fun _ => rfl) fun _ => rfl
  send _ _ pkt h hlt := h.send hlt pkt
  login _ _ _ name h hlt _ := h.loggedIn hlt name
  remove _ c h := h.remove c
  detach _ c h := h.detach c
  release _ _ h hfree := h.release hfree
  wrote _ c n h := h.wrote c n
  flushed _ _ h halone hempty := h.flushed halone hempty
  accept _ _ _ h _ _ _ haccept := h.accept haccept
  clock _ _ h := ⟨h.users, h.watched, h.stream, h.fresh, h.flagged, h.armed⟩

/-- In every run of the server, for every connection, what its socket has accepted and what
waits are together the encodings of the packets given to `send`, in this order; and while it is
registered, the reactor reports that its socket can take more whenever something waits. -/
theorem output_accounted
    {events : List Event} (hrun : runServer J events = .ok w) (c : ConnId) :
    acceptedBytes c w.trace ++ (w.conns c).writeBuf.readable =
        (sentTo c w.trace).flatMap encode ∧
      (Registered w c → (outbox w c).Woken) := by
  have h := (outgoing_rule J).callbacks.run outgoing_initial hrun
  refine ⟨h.stream c, ?_⟩
  intro hreg hpending
  exact h.armed c hreg (h.flagged c hpending)

theorem output_accounted_loginRun :
    ∃ w, runServer sampleJson loginRun = .ok w ∧ Registered w 0 ∧
      (w.conns 0).writeBuf.readable ≠ [] ∧
        acceptedBytes 0 w.trace ++ (w.conns 0).writeBuf.readable =
          (sentTo 0 w.trace).flatMap encode ∧
        (outbox w 0).Woken := by
  obtain ⟨w, hrun, hw⟩ := Runs.exists_ok_of_any
    (runServer sampleJson loginRun)
    (fun w => Registered w 0 ∧ (w.conns 0).writeBuf.readable ≠ [])
    (by decide +kernel)
  obtain ⟨hreg, hwaits⟩ := of_decide_eq_true hw
  obtain ⟨hstream, hwoken⟩ := output_accounted hrun 0
  exact ⟨w, hrun, hreg, hwaits, hstream, hwoken hreg⟩

end Operations

end Tcp
end ChatRoom
