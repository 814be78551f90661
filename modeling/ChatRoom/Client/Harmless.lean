import ChatRoom.Client.Conversation
import ChatRoom.Tcp.Survival

/-!
# Clients do not end the server

A document in the wrong shape ends the TCP server.  People at terminals cannot send one:
whatever lines they type, wherever the streams are cut and however they interleave, the server
goes on (`clients_spare_server`).  A packet that is too long for `enc` ends the client before
any of its bytes are sent, so the lengths do not matter.
-/

namespace ChatRoom
namespace Client

open Incremental Tcp

section Streams

variable {J : JsonLib} {dumps : Json → Bytes}

/-- A front of what a client sends in a session whose documents the server understands. -/
def Typed (J : JsonLib) (dumps : Json → Bytes) (bs : Bytes) : Prop :=
  ∃ user lines, (∀ doc ∈ documents user lines, Understood J dumps doc) ∧
    bs <+: transmit (session dumps user lines)

/-- A document that is understood has the texts that it was written with. -/
theorem Understood.textMember
    {doc j : Json} {key : String} (h : Understood J dumps doc)
    (hparse : J.parse (dumps doc) = some j) (htext : doc.TextMember key) :
    j.TextMember key := by
  obtain ⟨doc', hparse', hvalue⟩ := h
  obtain rfl : doc' = j := Option.some.inj (hparse'.symm.trans hparse)
  rw [← Json.value_returns_iff ""] at htext ⊢
  rwa [hvalue key]

theorem textMember_obj
    {members : List (String × Json)} {key text : String}
    (h : members.lookup key = some (.str text)) :
    (Json.obj members).TextMember key :=
  ⟨members, rfl, fun _ hmember => ⟨text, Option.some.inj (hmember.symm.trans h)⟩⟩

/-- The login of a client. -/
theorem shaped_login
    {user : String} (h : Understood J dumps (loginJson user)) :
    Shaped J { type := 1, body := dumps (loginJson user) } := by
  intro j hparse
  refine ⟨fun _ => h.textMember hparse (textMember_obj rfl), ?_, ?_⟩
  · intro htype
    cases htype
  · intro htype
    cases htype

/-- The packet of a command. -/
theorem shaped_packet
    {cmd : Command} {pkt : Packet}
    (h : ∀ doc, cmd.document? = some doc → Understood J dumps doc)
    (hpkt : cmd.packet? dumps = some pkt) :
    Shaped J pkt := by
  intro j hparse
  cases cmd with
  | skip =>
      cases hpkt
  | list | ping | quit =>
      obtain rfl := Option.some.inj hpkt
      refine ⟨?_, ?_, ?_⟩ <;>
        · intro htype
          cases htype
  | chat content =>
      obtain rfl := Option.some.inj hpkt
      refine ⟨?_, fun _ => (h _ rfl).textMember hparse (textMember_obj rfl), ?_⟩
      · intro htype
        cases htype
      · intro htype
        cases htype
  | tell to_ content =>
      obtain rfl := Option.some.inj hpkt
      refine ⟨?_, ?_, fun _ => ⟨(h _ rfl).textMember hparse (textMember_obj rfl),
        (h _ rfl).textMember hparse (textMember_obj rfl)⟩⟩
      · intro htype
        cases htype
      · intro htype
        cases htype

/-- All packets of a session. -/
theorem shaped_session
    {user : String} {lines : List String}
    (h : ∀ doc ∈ documents user lines, Understood J dumps doc) :
    ∀ pkt ∈ session dumps user lines, Shaped J pkt := by
  rw [documents, List.forall_mem_cons] at h
  rw [session, List.forall_mem_cons]
  refine ⟨shaped_login h.1, ?_⟩
  intro pkt hpkt
  obtain ⟨cmd, hcmd, hpkt⟩ := List.mem_filterMap.mp hpkt
  exact shaped_packet (fun doc hdoc => h.2 doc (List.mem_filterMap.mpr ⟨cmd, hcmd, hdoc⟩)) hpkt

/-- The packets before the first one that is too long are sent. -/
theorem transmit_front
    (pkts : List Packet) :
    ∃ front, front <+: pkts ∧ (∀ pkt ∈ front, pkt.body.length + 1 < 2 ^ 32) ∧
      transmit pkts = front.flatMap encode := by
  induction pkts with
  | nil =>
      exact ⟨[], List.prefix_rfl, by simp, rfl⟩
  | cons pkt pkts ih =>
      by_cases hsize : pkt.body.length + 1 < 2 ^ 32
      · obtain ⟨front, hfront, hsizes, heq⟩ := ih
        refine ⟨pkt :: front, List.cons_prefix_cons.mpr ⟨rfl, hfront⟩,
          List.forall_mem_cons.mpr ⟨hsize, hsizes⟩, ?_⟩
        rw [transmit, enc_eq_encode hsize, heq, List.flatMap_cons]
      · refine ⟨[], List.nil_prefix, by simp, ?_⟩
        rw [transmit, enc, if_neg hsize]
        rfl

/-- What the server decodes of the bytes of a session are packets of the session. -/
theorem items_transmit
    {pkts : List Packet} {bs : Bytes} (h : bs <+: transmit pkts) :
    (packetDecoder.drain bs).items <+: pkts := by
  obtain ⟨front, hfront, hsizes, heq⟩ := transmit_front pkts
  rw [heq] at h
  obtain ⟨haccepts, -⟩ := Decoder.drain_of_accepts clientDecoder
    (fun h => clientVerdict_of_done h) (fun h => clientVerdict_of_wait h) bs
  obtain ⟨hitems, -⟩ := Decoder.drain_front (d := clientDecoder)
    (fun pkt hpkt => clientVerdict_encode (hsizes pkt hpkt)) rfl h
  exact (haccepts.trans hitems).trans hfront

/-- The packets that are decoded of what has been typed. -/
theorem Typed.shaped
    {bs : Bytes} (h : Typed J dumps bs) :
    ∀ pkt ∈ (packetDecoder.drain bs).items, Shaped J pkt := by
  obtain ⟨user, lines, hjson, hfront⟩ := h
  intro pkt hpkt
  exact shaped_session hjson pkt ((items_transmit hfront).subset hpkt)

end Streams

section Survival

variable {J : JsonLib} {events : List Event}

/-- When every connection on which something arrives has a client behind it, the server goes on
to the end of the run, whatever the clients type and whenever their bytes arrive. -/
theorem clients_spare_server
    (dumps : Json → Bytes)
    (hclients : ∀ c, arrived J c events ≠ [] → Typed J dumps (arrived J c events)) :
    ∃ w, runServer J events = .ok w := by
  apply lives_of_shaped
  intro c
  by_cases hnone : arrived J c events = []
  · rw [hnone, Decoder.drain_wait (d := packetDecoder) [] rfl]
    simp
  · exact (hclients c hnone).shaped

theorem clients_spare_server_terminalRun :
    arrived terminalJson 1 terminalRun ≠ [] ∧
      (∀ c, arrived terminalJson c terminalRun ≠ [] →
        Typed terminalJson dumpsPlain (arrived terminalJson c terminalRun)) ∧
        ∃ w, runServer terminalJson terminalRun = .ok w := by
  have hclients : ∀ c, arrived terminalJson c terminalRun ≠ [] →
      Typed terminalJson dumpsPlain (arrived terminalJson c terminalRun) := by
    intro c hne
    have hcases (n : Nat) : n = 0 ∨ n = 1 ∨ 2 ≤ n := by
      omega
    obtain rfl | rfl | hfresh := hcases c
    · refine ⟨"a", [], fun doc hdoc => understood_terminal doc ?_, by decide +kernel⟩
      exact List.mem_cons.mpr (.inl (List.mem_singleton.mp hdoc))
    · exact ⟨"b", ["hi"], fun doc hdoc => understood_terminal doc (List.mem_cons_of_mem _ hdoc),
        by decide +kernel⟩
    · obtain ⟨w, hrun, hw⟩ := Runs.exists_ok_of_any (runServer terminalJson terminalRun)
        (fun w => w.allocated = 2) (by decide +kernel)
      have hallocated : w.allocated = 2 := of_decide_eq_true hw
      exact absurd ((reads_runServer hrun c).fresh (hallocated ▸ hfresh)).1 hne
  exact ⟨by decide +kernel, hclients, clients_spare_server dumpsPlain hclients⟩

end Survival

end Client
end ChatRoom
