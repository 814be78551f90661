import ChatRoom.Tcp.OperationRule
import ChatRoom.Tcp.PacketStream

/-!
# No descriptor is lost

Three tables know the connections that are there: the reactor, the `ConnectionManager` and
the kernel.  Between two events they agree (`descriptors_accounted`): every open
descriptor belongs to one connection, which is registered under it, under watch and not
closed, so it is closed when that connection is idle for too long.
-/

namespace ChatRoom
namespace Tcp

open Socket

/-- What is registered is under watch and not closed, and what is open is registered. -/
structure Accounted (w : Chat) : Prop where
  managed : ∀ c, Registered w c → c ∈ w.env.managed
  alive : ∀ c, Registered w c → (w.conns c).state ≠ .CLOSED
  opened : ∀ fd, w.openFds fd = true → ∃ c, w.reactor.contexts fd = some c

section Accounts

variable {J : JsonLib} {w w' : Chat} {c : ConnId} {pkt : Packet}

theorem accounted_initial :
    Accounted initial where
  managed c h := by
    cases h
  alive c h := by
    cases h
  opened fd h := by
    cases h

theorem Accounted.quiet
    (h : Accounted w) (hq : Quiet w w') (hfds : w'.openFds = w.openFds) :
    Accounted w' := by
  have hregistered : ∀ d, Registered w' d ↔ Registered w d := by
    intro d
    rw [Registered, Registered, hq.fd, hq.contexts]
  constructor
  case managed =>
    intro d hreg
    rw [hq.env]
    exact h.managed d ((hregistered d).mp hreg)
  case alive =>
    intro d hreg
    rw [hq.state]
    exact h.alive d ((hregistered d).mp hreg)
  case opened =>
    rw [hfds, hq.contexts]
    exact h.opened

theorem Accounted.loggedIn
    (h : Accounted w) (c : ConnId) (name : String) :
    Accounted (loggedIn w c name) := by
  have hconn : ∀ d, ((Tcp.loggedIn w c name).conns d).fd = (w.conns d).fd ∧
      ((w.conns d).state ≠ .CLOSED → ((Tcp.loggedIn w c name).conns d).state ≠ .CLOSED) := by
    intro d
    by_cases hd : d = c
    · subst hd
      simp [Tcp.loggedIn, setUsername, World.setConn, World.note, World.setUsers]
    · simp [Tcp.loggedIn, setUsername, World.setConn, World.note, World.setUsers, hd]
  have hregistered : ∀ d, Registered (Tcp.loggedIn w c name) d → Registered w d := by
    intro d hreg
    rw [Registered, (hconn d).1] at hreg
    exact hreg
  constructor
  case managed =>
    exact fun d hreg => h.managed d (hregistered d hreg)
  case alive =>
    exact fun d hreg => (hconn d).2 (h.alive d (hregistered d hreg))
  case opened =>
    exact h.opened

/-- The descriptor of a connection that is closed goes with it, and no other one. -/
theorem Accounted.close
    (h : Accounted w) (halone : Alone c w) :
    Accounted (close (closeCallback J) w c) := by
  by_cases hclosed : (w.conns c).state = .CLOSED
  · rw [Tcp.close, if_pos hclosed]
    exact h
  · have hcl := close_closes J hclosed
    have hother : ∀ d, Registered (Tcp.close (closeCallback J) w c) d → d ≠ c ∧ Registered w d := by
      intro d hreg
      have hfd : ((Tcp.close (closeCallback J) w c).conns d).fd = (w.conns d).fd := by
        rw [hcl.conns d]
      rw [Registered, hfd, hcl.contexts, Function.update_apply] at hreg
      by_cases hsame : (w.conns d).fd = (w.conns c).fd
      · rw [if_pos hsame] at hreg
        cases hreg
      · rw [if_neg hsame] at hreg
        refine ⟨?_, hreg⟩
        rintro rfl
        exact hsame rfl
    constructor
    case managed =>
      intro d hreg
      obtain ⟨hd, hreg⟩ := hother d hreg
      rw [hcl.managed, UnorderedSet.mem_erase]
      exact ⟨hd, h.managed d hreg⟩
    case alive =>
      intro d hreg
      obtain ⟨hd, hreg⟩ := hother d hreg
      rw [hcl.conns d]
      simp only [if_neg hd]
      exact h.alive d hreg
    case opened =>
      intro fd hopen
      rw [hcl.openFds, Function.update_apply] at hopen
      split at hopen
      · cases hopen
      · next hfd =>
          obtain ⟨d, hd⟩ := h.opened fd hopen
          refine ⟨d, ?_⟩
          rw [hcl.contexts, Function.update_of_ne hfd]
          exact hd

theorem Accounted.handlePacket
    (h : Accounted w) (hin : Within c w) (hpkt : handlePacket (callbacks J) w c pkt = .ok w') :
    Accounted w' := by
  have hnoted : Accounted (w.note (.packet c pkt)) := ⟨h.managed, h.alive, h.opened⟩
  cases onPacket_effect hpkt with
  | sends out hout =>
      exact hnoted.quiet hout.quiet hout.openFds
  | login name out hstate hfree hout =>
      exact (hnoted.loggedIn c name).quiet hout.quiet hout.openFds
  | logout htype hstate =>
      have hremoved : Accounted (UserManager.remove (w.note (.packet c pkt)) c) :=
        ⟨hnoted.managed, hnoted.alive, hnoted.opened⟩
      exact hremoved.close hin.alone

theorem Accounted.accept
    (h : Accounted w) {fd : Fd} (haccept : accept w fd = .ok w') :
    Accounted w' := by
  have hopen : w'.openFds = Function.update w.openFds fd true := by
    obtain ⟨w₁, hstart, rfl⟩ := Runs.map_eq_ok.mp haccept
    obtain ⟨r, -, rfl⟩ := Runs.map_eq_ok.mp hstart
    rfl
  have hacc := accept_accepts haccept
  have hregistered : ∀ d, Registered w' d → d = w.allocated ∨
      w'.conns d = w.conns d ∧ Registered w d := by
    intro d hreg
    by_cases hd : d = w.allocated
    · exact .inl hd
    · have hsame : w'.conns d = w.conns d := by
        rw [hacc.conns, Function.update_of_ne hd]
      rw [Registered, hsame, hacc.contexts, Function.update_apply] at hreg
      split at hreg
      · exact absurd (Option.some.inj hreg).symm hd
      · exact .inr ⟨hsame, hreg⟩
  constructor
  case managed =>
    intro d hreg
    rw [hacc.managed, UnorderedSet.mem_insert]
    rcases hregistered d hreg with hd | ⟨-, hreg⟩
    · exact .inl hd
    · exact .inr (h.managed d hreg)
  case alive =>
    intro d hreg
    rcases hregistered d hreg with rfl | ⟨hsame, hreg⟩
    · rw [hacc.conns, Function.update_self]
      simp [Connection.new]
    · rw [hsame]
      exact h.alive d hreg
  case opened =>
    intro fd' hfd'
    rw [hopen, Function.update_apply] at hfd'
    rw [hacc.contexts, Function.update_apply]
    split at hfd'
    · next heq =>
        rw [if_pos heq]
        exact ⟨_, rfl⟩
    · next hne =>
        rw [if_neg hne]
        exact h.opened fd' hfd'

theorem accounted_rule
    (J : JsonLib) :
    CallbackRule J Accounted where
  receive _ _ _ _ h := h.quiet (quiet_setConn rfl rfl rfl) rfl
  packet _ _ _ _ hin h hpkt := h.handlePacket hin hpkt
  close _ _ hin h := h.close hin.alone
  wrote w c n h := h.quiet (wrote_writes w c n).quiet rfl
  flushed w c _ _ h := h.quiet (stopWriting_writes w c _ _).quiet rfl
  accept _ _ _ _ _ _ h haccept := h.accept haccept
  clock w now h := h.quiet (quiet_clock w now) rfl

/-- Between any two events the connections that are registered are those under watch, none of
them is closed, no two of them have one descriptor, and their descriptors are the ones that
are open. -/
theorem descriptors_accounted
    {events : List Event} (hrun : runServer J events = .ok w) :
    (∀ c, Registered w c ↔ c ∈ w.env.managed) ∧
      (∀ c ∈ w.env.managed, (w.conns c).state ≠ .CLOSED) ∧
        (∀ c ∈ w.env.managed, ∀ d ∈ w.env.managed, (w.conns c).fd = (w.conns d).fd → c = d) ∧
          ∀ fd, w.openFds fd = true ↔ ∃ c ∈ w.env.managed, (w.conns c).fd = fd := by
  have h := (accounted_rule J).run accounted_initial hrun
  obtain ⟨-, hw⟩ := wired_run hrun
  refine ⟨fun c => ⟨h.managed c, hw.watched c⟩, fun c hc => h.alive c (hw.watched c hc), ?_, ?_⟩
  · intro c hc d hd hfd
    have hc := hw.watched c hc
    have hd := hw.watched d hd
    rw [hfd, hd] at hc
    exact (Option.some.inj hc).symm
  · intro fd
    constructor
    · intro hopen
      obtain ⟨c, hc⟩ := h.opened fd hopen
      obtain rfl := hw.owner fd c hc
      exact ⟨c, h.managed c hc, rfl⟩
    · rintro ⟨c, hc, rfl⟩
      exact hw.live _ c (hw.watched c hc)

theorem descriptors_accounted_loginRun :
    ∃ w, runServer sampleJson loginRun = .ok w ∧ w.openFds 5 = true ∧
      (∀ c, Registered w c ↔ c ∈ w.env.managed) ∧
        ∃ c ∈ w.env.managed, (w.conns c).fd = 5 := by
  obtain ⟨w, hrun, hw⟩ := Runs.exists_ok_of_any
    (runServer sampleJson loginRun)
    (fun w => w.openFds 5 = true)
    (by decide +kernel)
  have hopen : w.openFds 5 = true := of_decide_eq_true hw
  obtain ⟨hregistered, -, -, hopened⟩ := descriptors_accounted hrun
  exact ⟨w, hrun, hopen, hregistered, (hopened 5).mp hopen⟩

end Accounts

end Tcp
end ChatRoom
