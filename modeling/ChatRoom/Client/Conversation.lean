import ChatRoom.Client.ChatClient
import ChatRoom.Tcp.InputStream
import ChatRoom.Tcp.OutputStream

/-!
# From terminal to terminal

People type lines into clients, and clients print what the server sends.  Whatever the
kernel makes of the bytes in between, and however their connections interleave, what the
server takes from a terminal is a front of what has been typed there, and what a terminal
prints is a front of the notices that the chat service has put into its inbox
(`terminals_meet_service`).

The client writes its documents with `json.dumps` and the server reads them with another
library; that the two agree on the documents of a session is an assumption (`Understood`).
-/

namespace ChatRoom
namespace Client

open Incremental Socket Tcp

/-- What a command asks the service for. -/
def Command.request? : Command → Option Request
  | .skip => none
  | .chat content => some (.chat (some content))
  | .tell to_ content => some (.tell (some (to_, content)))
  | .list => some .list
  | .ping => some .ping
  | .quit => some .silent

/-- What a user asks the service for. -/
def requests (user : String) (lines : List String) : List Request :=
  .login (some user) :: (commands lines).filterMap Command.request?

/-- The document that is sent for a command. -/
def Command.document? : Command → Option Json
  | .chat content => some (chatJson content)
  | .tell to_ content => some (privateJson to_ content)
  | _ => none

/-- The documents of a session. -/
def documents (user : String) (lines : List String) : List Json :=
  loginJson user :: (commands lines).filterMap Command.document?

/-- The library of the server reads the text of a document as this document. -/
def Understood (J : JsonLib) (dumps : Json → Bytes) (doc : Json) : Prop :=
  ∃ doc', J.parse (dumps doc) = some doc' ∧ ∀ key, doc'.value key "" = doc.value key ""

/-- What a connection asks for at an occurrence. -/
def requestOf (c : ConnId) : Occurrence → Option Request
  | .request d r => if d = c then some r else none
  | .gone _ => none

/-- What a connection has asked for. -/
def requestsOf (c : ConnId) (past : List Occurrence) : List Request :=
  past.filterMap (requestOf c)

section Typed

variable {J : JsonLib} {dumps : Json → Bytes} {w : Chat} {c : ConnId} {user : String}
  {lines : List String} {events : List Event}

theorem meaning_login
    (h : Understood J dumps (loginJson user)) :
    meaning J { type := 1, body := dumps (loginJson user) } = .login (some user) := by
  obtain ⟨doc, hparse, hvalue⟩ := h
  have husername : doc.value "username" "" = .ok user := hvalue "username"
  have hmeaning : meaning J { type := 1, body := dumps (loginJson user) } =
      .login ((J.parse (dumps (loginJson user))).bind fun j =>
        (j.value "username" "").toOption) := rfl
  rw [hmeaning, hparse, Option.bind_some, husername]
  rfl

/-- The packet of a command asks for what the command asks for. -/
theorem meaning_packet
    {cmd : Command} (h : ∀ doc, cmd.document? = some doc → Understood J dumps doc) :
    (cmd.packet? dumps).map (meaning J) = cmd.request? := by
  cases cmd with
  | skip | list | ping | quit =>
      rfl
  | chat content =>
      obtain ⟨doc, hparse, hvalue⟩ := h _ rfl
      have hcontent : doc.value "content" "" = .ok content := hvalue "content"
      have hmeaning : meaning J { type := 3, body := dumps (chatJson content) } =
          .chat ((J.parse (dumps (chatJson content))).bind fun j =>
            (j.value "content" "").toOption) := rfl
      rw [Command.packet?, Option.map_some, hmeaning, hparse, Option.bind_some, hcontent]
      rfl
  | tell to_ content =>
      obtain ⟨doc, hparse, hvalue⟩ := h _ rfl
      have hto : doc.value "to" "" = .ok to_ := hvalue "to"
      have hcontent : doc.value "content" "" = .ok content := hvalue "content"
      have hmeaning : meaning J { type := 6, body := dumps (privateJson to_ content) } =
          .tell ((J.parse (dumps (privateJson to_ content))).bind fun j =>
            (j.value "to" "").toOption.bind fun to_ =>
              (j.value "content" "").toOption.map fun content => (to_, content)) := rfl
      rw [Command.packet?, Option.map_some, hmeaning, hparse, Option.bind_some, hto, hcontent]
      rfl

/-- The packets of a session ask for what the user asks for. -/
theorem meaning_session
    (hjson : ∀ doc ∈ documents user lines, Understood J dumps doc) :
    (session dumps user lines).map (meaning J) = requests user lines := by
  rw [documents, List.forall_mem_cons] at hjson
  rw [session, requests, List.map_cons, meaning_login hjson.1, List.map_filterMap]
  congr 1
  apply List.filterMap_congr
  intro cmd hcmd
  apply meaning_packet
  intro doc hdoc
  exact hjson.2 doc (List.mem_filterMap.mpr ⟨cmd, hcmd, hdoc⟩)

/-- What a connection has asked for is what its packets mean. -/
theorem requestsOf_occurrences
    (J : JsonLib) (w : Chat) (c : ConnId) :
    requestsOf c (occurrences J w.trace) = (delivered w c).map (meaning J) := by
  rw [requestsOf, occurrences, delivered_eq, List.filterMap_filterMap, List.map_filterMap]
  apply List.filterMap_congr
  intro o _
  cases o with
  | packet d pkt =>
      by_cases hd : d = c
      · simp [occurrence, requestOf, handedIn, hd]
      · simp [occurrence, requestOf, handedIn, hd]
  | closed | registered | sent | wrote =>
      rfl

/-- What the server takes from a terminal has been typed there, and while the connection is
registered nothing is left out. -/
theorem typed_requests
    (hrun : runServer J events = .ok w)
    (hjson : ∀ doc ∈ documents user lines, Understood J dumps doc)
    (hsize : ∀ pkt ∈ session dumps user lines, pkt.body.length + 1 < 2 ^ 32)
    (harrived : arrived J c events <+: transmit (session dumps user lines)) :
    requestsOf c (occurrences J w.trace) <+: requests user lines ∧
      (Registered w c → arrived J c events = transmit (session dumps user lines) →
        requestsOf c (occurrences J w.trace) = requests user lines) := by
  obtain ⟨hdelivered, hall⟩ := packets_of_arrived hrun c
  obtain ⟨haccepts, hsame⟩ := Decoder.drain_of_accepts clientDecoder
    (fun h => clientVerdict_of_done h) (fun h => clientVerdict_of_wait h) (arrived J c events)
  rw [transmit_eq hsize] at harrived ⊢
  obtain ⟨hfront, -, hwhole⟩ := Decoder.drain_front (d := clientDecoder)
    (fun pkt hpkt => clientVerdict_encode (hsize pkt hpkt)) rfl harrived
  rw [requestsOf_occurrences, ← meaning_session hjson]
  refine ⟨((hdelivered.trans haccepts).trans hfront).map _, ?_⟩
  intro hreg heq
  obtain ⟨hitems, hok, -⟩ := hall hreg
  have hevery := hwhole _ List.prefix_rfl (heq ▸ List.prefix_rfl)
  rw [hitems, ← hsame hok, List.IsPrefix.eq_of_length_le hfront hevery.length_le]

end Typed

section Printed

variable {J : JsonLib} {w : Chat} {c : ConnId} {events : List Event} {inbox : List Notice}
  (decodeReplace : Bytes → String) (user : String)

/-- What a terminal prints of a notice. -/
def shownNotice (J : JsonLib) (n : Notice) : String :=
  shown decodeReplace user (packetOf J n)

/-- A terminal prints a front of the notices for it, and every notice whose packet has come
through as a whole. -/
theorem printed_notices
    (hrun : runServer J events = .ok w) (hinbox : sentTo c w.trace = inbox.map (packetOf J))
    (hsize : ∀ pkt ∈ sentTo c w.trace, pkt.body.length + 1 < 2 ^ 32) {t : Input}
    (ht : t.pending <+: acceptedBytes c w.trace) :
    ∃ front, front <+: inbox ∧
      reader decodeReplace user t =
        front.map (shownNotice decodeReplace user J) ++ farewell user (atEnd t.idle) ∧
      ∀ whole, whole <+: inbox →
        (whole.flatMap fun n => encode (packetOf J n)) <+: t.pending → whole <+: front := by
  have hstream : t.pending <+: (sentTo c w.trace).flatMap encode := by
    rw [← (output_accounted hrun c).1]
    exact ht.trans (List.prefix_append _ _)
  obtain ⟨pkts, hpkts, hprinted, hwhole⟩ := reader_prints_front decodeReplace user hsize hstream
  rw [hinbox] at hpkts hwhole
  have hfront : pkts = (inbox.take pkts.length).map (packetOf J) := by
    rw [List.map_take]
    exact List.prefix_iff_eq_take.mp hpkts
  refine ⟨inbox.take pkts.length, List.take_prefix _ _, ?_, ?_⟩
  · rw [hprinted]
    nth_rewrite 1 [hfront]
    rw [List.map_map]
    rfl
  · intro whole hle harrived
    have harrived : (whole.map (packetOf J)).flatMap encode <+: t.pending := by
      rw [List.flatMap_map]
      exact harrived
    have hlen := (hwhole _ (hle.map _) harrived).length_le
    rw [List.length_map] at hlen
    exact List.prefix_of_prefix_length_le hle (List.take_prefix _ _)
      (by rw [List.length_take]; exact le_min hlen hle.length_le)

end Printed

section EndToEnd

variable {J : JsonLib} {w : Chat} {events : List Event}

/-- However the bytes of the connections are cut and interleaved, there is a state of the chat
service that the packets taken so far lead to such that: a connection behind which a client
runs has asked for a front of what has been typed, and for all of it if all has arrived and the
connection is registered; and what a client prints of the bytes that have come through to it is
a front of its inbox, in order, with every notice that has come through as a whole. -/
theorem terminals_meet_service
    (dumps : Json → Bytes) (decodeReplace : Bytes → String)
    (hrun : runServer J events = .ok w) :
    ∃ s, Service.Reached (occurrences J w.trace) s ∧
      (∀ c user lines, (∀ doc ∈ documents user lines, Understood J dumps doc) →
        (∀ pkt ∈ session dumps user lines, pkt.body.length + 1 < 2 ^ 32) →
          arrived J c events <+: transmit (session dumps user lines) →
            requestsOf c (occurrences J w.trace) <+: requests user lines ∧
              (Registered w c → arrived J c events = transmit (session dumps user lines) →
                requestsOf c (occurrences J w.trace) = requests user lines)) ∧
        ∀ c user (t : Input), (∀ pkt ∈ sentTo c w.trace, pkt.body.length + 1 < 2 ^ 32) →
          t.pending <+: acceptedBytes c w.trace →
            ∃ front, front <+: s.inbox c ∧
              reader decodeReplace user t =
                front.map (shownNotice decodeReplace user J) ++ farewell user (atEnd t.idle) ∧
              ∀ whole, whole <+: s.inbox c →
                (whole.flatMap fun n => encode (packetOf J n)) <+: t.pending →
                  whole <+: front := by
  obtain ⟨s, hreached, -, hinbox⟩ := server_refines_service hrun
  refine ⟨s, hreached, ?_, ?_⟩
  · intro c user lines hjson hsize harrived
    exact typed_requests hrun hjson hsize harrived
  · intro c user t hsize ht
    exact printed_notices decodeReplace user hrun (hinbox c) hsize ht

/-- `json.dumps` of an object of texts without characters that need an escape. -/
def dumpsPlain : Json → Bytes
  | .obj members =>
      bytes ("\x7b" ++ ", ".intercalate (members.map fun
        | (key, .str text) => "\"" ++ key ++ "\": \"" ++ text ++ "\""
        | (key, _) => "\"" ++ key ++ "\": null") ++ "\x7d")
  | _ => bytes "null"

/-- The library of the server on the documents of two sessions. -/
def terminalJson : JsonLib :=
  JsonLib.ofTable ([loginJson "a", loginJson "b", chatJson "hi"].map fun doc =>
    (dumpsPlain doc, doc))

/-- A character for each byte. -/
def asciiText (bs : Bytes) : String :=
  String.ofList (bs.map fun b => Char.ofNat b.toNat)

/-- The users `a` and `b` are at their terminals; `b` types `hi`. -/
def terminalRun : List Event :=
  [.accept 5, arrive (transmit (session dumpsPlain "a" [])), .accept 6,
    .ready 6 { input := true, output := false, failure := false }
      { pending := transmit (session dumpsPlain "b" ["hi"]), sizes := [], idle := .again } [],
    .ready 5 { input := false, output := true, failure := false }
      { pending := [], sizes := [], idle := .again } [.accepts 4096]]

theorem understood_terminal :
    ∀ doc ∈ [loginJson "a", loginJson "b", chatJson "hi"],
      Understood terminalJson dumpsPlain doc := by
  have hparse : ∀ doc ∈ [loginJson "a", loginJson "b", chatJson "hi"],
      terminalJson.parse (dumpsPlain doc) = some doc := by
    have hb : (dumpsPlain (loginJson "b") == dumpsPlain (loginJson "a")) = false := by
      decide +kernel
    have ha : (dumpsPlain (chatJson "hi") == dumpsPlain (loginJson "a")) = false := by
      decide +kernel
    have hhi : (dumpsPlain (chatJson "hi") == dumpsPlain (loginJson "b")) = false := by
      decide +kernel
    simp [terminalJson, JsonLib.ofTable, List.lookup_cons, hb, ha, hhi]
  intro doc hdoc
  exact ⟨doc, hparse doc hdoc, fun _ => rfl⟩

theorem terminals_meet_service_terminalRun :
    ∃ w s front, runServer terminalJson terminalRun = .ok w ∧
      Service.Reached (occurrences terminalJson w.trace) s ∧
        requestsOf 1 (occurrences terminalJson w.trace) =
          [.login (some "b"), .chat (some "hi")] ∧
        front <+: s.inbox 0 ∧
          reader asciiText "a" { pending := acceptedBytes 0 w.trace, sizes := [], idle := .eof } =
            front.map (shownNotice asciiText "a" terminalJson) ++
              ["\r[a] [disconnected]\n> "] := by
  obtain ⟨w, hrun, hw⟩ := Runs.exists_ok_of_any
    (runServer terminalJson terminalRun)
    (fun w => Registered w 1 ∧ ∀ pkt ∈ sentTo 0 w.trace, pkt.body.length + 1 < 2 ^ 32)
    (by decide +kernel)
  obtain ⟨hreg, hsize⟩ := of_decide_eq_true hw
  obtain ⟨s, hreached, htyped, hprinted⟩ :=
    terminals_meet_service dumpsPlain asciiText hrun
  have harrived : arrived terminalJson 1 terminalRun =
      transmit (session dumpsPlain "b" ["hi"]) := by
    decide +kernel
  have hrequests := (htyped 1 "b" ["hi"] (fun doc hdoc => understood_terminal doc ?_)
    (by decide +kernel) (harrived ▸ List.prefix_rfl)).2 hreg harrived
  · obtain ⟨front, hfront, hlines, -⟩ := hprinted 0 "a"
      { pending := acceptedBytes 0 w.trace, sizes := [], idle := .eof } hsize List.prefix_rfl
    exact ⟨w, s, front, hrun, hreached, hrequests, hfront, hlines⟩
  · exact List.mem_cons_of_mem _ hdoc

end EndToEnd

end Client
end ChatRoom
