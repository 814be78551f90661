import ChatRoom.Common.Json
import ChatRoom.Lib.BlockingRead
import ChatRoom.Protocol.Packet

/-!
# The command line client

tools/chat_client.py: what it makes of the lines that are typed, and what it prints of
the bytes that arrive.  It has its own implementation of the packet protocol, which
knows no limit on the length of a body and does not reject a length of zero.

`dec` blocks until it has a packet, so it is a reader of `clientDecoder`
(`dec_reads`).  The two decoders of the protocol agree on every stream that the one of
the server does not reject (`reader_agrees`).
-/

namespace ChatRoom
namespace Client

open BigEndian Incremental Socket

/-- Why the client stops: `dec` has returned `None`, or an exception is raised. -/
inductive Stop where
  | disconnected
  | raised
deriving DecidableEq

section Packets

/-- `enc`; `struct.pack` raises an exception if the length does not fit four bytes. -/
def enc (t : UInt8) (body : Bytes) : Except Stop Bytes :=
  if body.length + 1 < 2 ^ 32 then
    .ok (toBigEndian 4 (body.length + 1) ++ t :: body)
  else
    .error .raised

/-- What a call of `recv` without data does to `dec`: an empty answer is the end, an
error is an exception. -/
def atEnd : Idle → Stop
  | .eof => .disconnected
  | .again => .raised
  | .error => .raised

/-- `dec`, before the body is decoded to a text; `rest[0]` raises an exception if the
length is zero. -/
def dec (s : Input) : Except Stop (Packet × Input) :=
  match s.readExactly 4 with
  | .error idle => .error (atEnd idle)
  | .ok (h, s) =>
      match s.readExactly (ofBigEndian h) with
      | .error idle => .error (atEnd idle)
      | .ok ([], _) => .error .raised
      | .ok (t :: body, s) => .ok ({ type := t, body := body }, s)

end Packets

section Printing

/-- `NAMES.get(t, f'TYPE{t}')` -/
def tag (t : UInt8) : String :=
  match MessageType.ofCode? t with
  | some .MSG_LOGIN => "LOGIN"
  | some .MSG_LOGIN_ACK => "ACK"
  | some .MSG_CHAT => "CHAT"
  | some .MSG_CHAT_BROAD => "CHAT_BROAD"
  | some .MSG_USER_LIST => "USER_LIST"
  | some .MSG_PRIVATE => "PRIVATE"
  | some .MSG_PING => "PING"
  | some .MSG_PONG => "PONG"
  | some .MSG_LOGOUT => "LOGOUT"
  | some .MSG_SYSTEM => "SYSTEM"
  | none => "TYPE" ++ toString t.toNat

variable (decodeReplace : Bytes → String) (user : String)

/-- What is printed of a packet; `decodeReplace` is `decode('utf-8', 'replace')`. -/
def shown (pkt : Packet) : String :=
  "\r[" ++ user ++ "] <- " ++ tag pkt.type ++ ": " ++ decodeReplace pkt.body ++ "\n> "

/-- What is printed at the end of the stream; an exception ends the thread silently. -/
def farewell : Stop → List String
  | .disconnected => ["\r[" ++ user ++ "] [disconnected]\n> "]
  | .raised => []

/-- `reader`: the texts that are printed.  Each turn but the last one takes a packet. -/
def readerLoop : Nat → Input → List String
  | 0, _ => []
  | fuel + 1, s =>
      match dec s with
      | .error stop => farewell user stop
      | .ok (pkt, s) => shown decodeReplace user pkt :: readerLoop fuel s

/-- `reader` on everything that arrives on a socket. -/
def reader (s : Input) : List String :=
  readerLoop decodeReplace user (s.pending.length + 1) s

end Printing

section Commands

variable (dumps : Json → Bytes)

/-- What a line is for. -/
inductive Command where
  | skip
  | chat (content : String)
  | tell (to_ content : String)
  | list
  | ping
  | quit

/-- `_, to, content = line.split(' ', 2)` for a line behind `/msg ` -/
def addressee? (line : List Char) : Option (String × String) :=
  match line.span fun ch => ch ≠ ' ' with
  | (to_, _ :: content) => some (String.ofList to_, String.ofList content)
  | (_, []) => none

/-- How `main` reads a line, which is typed without its line end; an exception is raised if
`/msg` has too few parts. -/
def command (line : String) : Except Stop Command :=
  if line = "" then
    .ok .skip
  else if "/msg ".toList.isPrefixOf line.toList then
    match addressee? (line.toList.drop 5) with
    | some (to_, content) => .ok (.tell to_ content)
    | none => .error .raised
  else if line = "/list" then
    .ok .list
  else if line = "/ping" then
    .ok .ping
  else if line = "/quit" then
    .ok .quit
  else
    .ok (.chat line)

/-- The commands of the lines, up to the end of the input, `/quit` or an exception. -/
def commands : List String → List Command
  | [] => []
  | line :: lines =>
      match command line with
      | .error _ => []
      | .ok .quit => [.quit]
      | .ok cmd => cmd :: commands lines

/-- The document of a login. -/
def loginJson (user : String) : Json :=
  .obj [("username", .str user)]

/-- The document of a private message. -/
def privateJson (to_ content : String) : Json :=
  .obj [("to", .str to_), ("content", .str content)]

/-- The document of a chat message. -/
def chatJson (content : String) : Json :=
  .obj [("content", .str content)]

/-- The packet that is sent for a line. -/
def Command.packet? : Command → Option Packet
  | .skip => none
  | .chat content => some { type := 3, body := dumps (chatJson content) }
  | .tell to_ content => some { type := 6, body := dumps (privateJson to_ content) }
  | .list => some { type := 5, body := [] }
  | .ping => some { type := 7, body := [] }
  | .quit => some { type := 9, body := [] }

/-- The packets of `main`. -/
def session (user : String) (lines : List String) : List Packet :=
  { type := 1, body := dumps (loginJson user) } :: (commands lines).filterMap (·.packet? dumps)

/-- `s.sendall(enc(…))` for one packet after the other. -/
def transmit : List Packet → Bytes
  | [] => []
  | pkt :: pkts =>
      match enc pkt.type pkt.body with
      | .error _ => []
      | .ok bs => bs ++ transmit pkts

end Commands

section Decoder

/-- The first packet of a byte string, as `dec` sees it. -/
def clientVerdict (data : Bytes) : Verdict Packet :=
  if data.length < 4 then
    .wait
  else if data.length < 4 + ofBigEndian (data.take 4) then
    .wait
  else
    match (data.drop 4).take (ofBigEndian (data.take 4)) with
    | [] => .malformed
    | t :: body => .done (4 + ofBigEndian (data.take 4)) { type := t, body := body }

variable {data : Bytes}

theorem clientVerdict_eq_done_iff
    {n : Nat} {pkt : Packet} :
    clientVerdict data = .done n pkt ↔
      4 ≤ data.length ∧ 4 + ofBigEndian (data.take 4) ≤ data.length ∧
        n = 4 + ofBigEndian (data.take 4) ∧
          (data.drop 4).take (ofBigEndian (data.take 4)) = pkt.type :: pkt.body := by
  obtain ⟨type, body⟩ := pkt
  unfold clientVerdict
  split
  · next hshort =>
      exact ⟨fun h => (by cases h), fun h => by omega⟩
  · next hhead =>
      split
      · next hshort =>
          exact ⟨fun h => (by cases h), fun h => by omega⟩
      · next hbody =>
          split
          · next hnil =>
              rw [hnil]
              exact ⟨fun h => (by cases h), fun h => (by simp at h)⟩
          · next t rest hcons =>
              rw [hcons]
              constructor
              · intro h
                cases h
                exact ⟨by omega, by omega, rfl, rfl⟩
              · rintro ⟨-, -, rfl, heq⟩
                cases heq
                rfl

theorem clientVerdict_eq_malformed_iff :
    clientVerdict data = .malformed ↔ 4 ≤ data.length ∧ ofBigEndian (data.take 4) = 0 := by
  unfold clientVerdict
  split
  · next hshort =>
      exact ⟨fun h => (by cases h), fun h => by omega⟩
  · next hhead =>
      split
      · next hshort =>
          exact ⟨fun h => (by cases h), fun h => by omega⟩
      · next hbody =>
          split
          · next hnil =>
              have hlen := congrArg List.length hnil
              rw [List.length_take, List.length_drop, List.length_nil] at hlen
              exact ⟨fun _ => ⟨by omega, by omega⟩, fun _ => rfl⟩
          · next t rest hcons =>
              refine ⟨fun h => (by cases h), fun h => ?_⟩
              rw [h.2, List.take_zero] at hcons
              cases hcons

/-- `dec` as an incremental decoder. -/
def clientDecoder : Decoder UInt8 Packet where
  decode := clientVerdict
  done_bounds := by
    intro data n pkt h
    obtain ⟨-, hlen, rfl, -⟩ := clientVerdict_eq_done_iff.mp h
    exact ⟨by omega, hlen⟩
  done_append := by
    intro data n pkt h more
    obtain ⟨hhead, hlen, rfl, hbody⟩ := clientVerdict_eq_done_iff.mp h
    have htake : (data ++ more).take 4 = data.take 4 := List.take_append_of_le_length hhead
    rw [clientVerdict_eq_done_iff, htake, List.length_append]
    refine ⟨by omega, by omega, rfl, ?_⟩
    rw [List.drop_append_of_le_length hhead, List.take_append_of_le_length, hbody]
    rw [List.length_drop]
    omega
  malformed_append := by
    intro data h more
    obtain ⟨hhead, hzero⟩ := clientVerdict_eq_malformed_iff.mp h
    rw [clientVerdict_eq_malformed_iff, List.take_append_of_le_length hhead, List.length_append]
    exact ⟨by omega, hzero⟩

/-- `dec` reads what the decoder decodes. -/
theorem dec_reads :
    Reads clientDecoder atEnd .raised dec where
  done := by
    intro s n pkt h
    obtain ⟨hhead, hlen, rfl, hbody⟩ := clientVerdict_eq_done_iff.mp h
    obtain ⟨s₁, hread, hrest, hidle⟩ := Input.readExactly_eq_ok hhead
    have hmore : ofBigEndian (s.pending.take 4) ≤ s₁.pending.length := by
      rw [hrest, List.length_drop]
      omega
    obtain ⟨s₂, hread', hrest', hidle'⟩ := Input.readExactly_eq_ok hmore
    rw [hrest, hbody] at hread'
    refine ⟨s₂, ?_, ?_, hidle'.trans hidle⟩
    · simp only [dec, hread, hread']
    · rw [hrest', hrest, List.drop_drop]
  wait := by
    intro s h
    have hcases : s.pending.length < 4 ∨
        4 ≤ s.pending.length ∧ s.pending.length < 4 + ofBigEndian (s.pending.take 4) := by
      by_contra hno
      simp only [clientDecoder, clientVerdict] at h
      rw [if_neg (by omega), if_neg (by omega)] at h
      split at h <;> cases h
    rcases hcases with hshort | ⟨hhead, hshort⟩
    · simp only [dec, Input.readExactly_eq_error hshort]
    · obtain ⟨s₁, hread, hrest, hidle⟩ := Input.readExactly_eq_ok hhead
      have hless : s₁.pending.length < ofBigEndian (s.pending.take 4) := by
        rw [hrest, List.length_drop]
        omega
      simp only [dec, hread, Input.readExactly_eq_error hless, hidle]
  malformed := by
    intro s h
    obtain ⟨hhead, hzero⟩ := clientVerdict_eq_malformed_iff.mp h
    obtain ⟨s₁, hread, -, -⟩ := Input.readExactly_eq_ok hhead
    obtain ⟨s₂, hread', -, -⟩ := Input.readExactly_eq_ok (Nat.zero_le s₁.pending.length)
    rw [List.take_zero] at hread'
    simp only [dec, hread, hzero, hread']

end Decoder

section Agreement

/-- A packet whose length fits the length field is read back. -/
theorem clientVerdict_encode
    {pkt : Packet} (hbody : pkt.body.length + 1 < 2 ^ 32) (rest : Bytes) :
    clientDecoder.decode (encode pkt ++ rest) = .done (encode pkt).length pkt := by
  have hfield : ofBigEndian ((encode pkt ++ rest).take 4) = pkt.body.length + 1 :=
    lengthField_encode hbody rest
  have hdrop : (encode pkt ++ rest).drop HEADER_SIZE = pkt.type :: pkt.body ++ rest := by
    rw [encode, List.append_assoc, List.drop_left' (length_toBigEndian _ _)]
  have hlen : (encode pkt).length = 4 + (pkt.body.length + 1) := length_encode pkt
  have hdone : clientVerdict (encode pkt ++ rest) = .done (encode pkt).length pkt := by
    refine clientVerdict_eq_done_iff.mpr ⟨?_, ?_, ?_, ?_⟩
    · rw [List.length_append]
      omega
    · rw [hfield, List.length_append]
      omega
    · rw [hfield, hlen]
    · rw [hfield, show (encode pkt ++ rest).drop 4 = _ from hdrop]
      exact List.take_left' rfl
  exact hdone

/-- Within four bytes of length the two encoders agree. -/
theorem enc_eq_encode
    {t : UInt8} {body : Bytes} (hbody : body.length + 1 < 2 ^ 32) :
    enc t body = .ok (encode { type := t, body := body }) := by
  rw [enc, if_pos hbody, encode]
  simp only [TYPE_SIZE, Nat.mod_eq_of_lt hbody, HEADER_SIZE]

/-- The packets of a session whose lengths fit are put on the wire one after the other. -/
theorem transmit_eq
    {pkts : List Packet} (hsize : ∀ pkt ∈ pkts, pkt.body.length + 1 < 2 ^ 32) :
    transmit pkts = pkts.flatMap encode := by
  induction pkts with
  | nil =>
      rfl
  | cons pkt pkts ih =>
      rw [List.forall_mem_cons] at hsize
      rw [transmit, enc_eq_encode hsize.1, List.flatMap_cons, ← ih hsize.2]

/-- What the decoder of the server accepts, the client accepts. -/
theorem clientVerdict_of_done
    {data : Bytes} {n : Nat} {pkt : Packet} (h : packetDecoder.decode data = .done n pkt) :
    clientDecoder.decode data = .done n pkt := by
  obtain ⟨⟨hhead, hpos, -, hlen⟩, rfl, htype, hbody⟩ := verdict_decode_done_iff.mp h
  have hsome : 4 < data.length := by
    simp only [HEADER_SIZE, TYPE_SIZE] at *
    omega
  refine clientVerdict_eq_done_iff.mpr ⟨hhead, hlen, rfl, ?_⟩
  obtain ⟨m, hm⟩ : ∃ m, ofBigEndian (data.take 4) = m + 1 :=
    Nat.exists_eq_add_of_le' hpos
  have htail : pkt.body = (data.drop 5).take m := by
    rw [hbody]
    simp only [HEADER_SIZE, TYPE_SIZE, hm, Nat.add_sub_cancel]
  have hfirst : pkt.type = data[4] := by
    rw [htype]
    simp [HEADER_SIZE, List.getD_eq_getElem?_getD, hsome]
  rw [hm, List.drop_eq_getElem_cons hsome, List.take_succ_cons, hfirst, htail]

/-- Where the decoder of the server waits, the client waits. -/
theorem clientVerdict_of_wait
    {data : Bytes} (h : packetDecoder.decode data = .wait) :
    clientDecoder.decode data = .wait := by
  obtain ⟨hno, hne⟩ := verdict_eq_wait h
  simp only [decode] at hno hne
  simp only [clientDecoder, clientVerdict]
  by_cases hhead : data.length < HEADER_SIZE
  · exact if_pos hhead
  · rw [if_neg hhead] at hno hne
    refine (if_neg hhead).trans (if_pos ?_)
    by_cases hbad : ofBigEndian (data.take HEADER_SIZE) < TYPE_SIZE ∨
        ofBigEndian (data.take HEADER_SIZE) > MAX_BODY_LENGTH
    · rw [if_pos hbad] at hne
      exact absurd rfl hne
    · rw [if_neg hbad] at hno
      by_contra hlong
      have hlong : ¬ data.length < HEADER_SIZE + ofBigEndian (data.take HEADER_SIZE) := hlong
      rw [if_neg hlong] at hno
      cases hno

variable (decodeReplace : Bytes → String) (user : String)

/-- The reader prints the packets of the stream, and why it stops. -/
theorem reader_eq
    (s : Input) :
    reader decodeReplace user s =
      (clientDecoder.drain s.pending).items.map (shown decodeReplace user) ++
        farewell user
          (if (clientDecoder.drain s.pending).failed then .raised else atEnd s.idle) := by
  have hloop : ∀ fuel s, readerLoop decodeReplace user fuel s =
      (readAll dec fuel s).1.map (shown decodeReplace user) ++
        ((readAll dec fuel s).2.map (farewell user)).getD [] := by
    intro fuel
    induction fuel with
    | zero =>
        intro s
        rfl
    | succ fuel ih =>
        intro s
        rw [readerLoop, readAll]
        cases dec s with
        | error stop =>
            rfl
        | ok r =>
            dsimp only
            rw [ih]
            rfl
  rw [reader, hloop, dec_reads.readAll_drain (Nat.lt_succ_self _)]
  rfl

/-- The client and the server decode a stream alike, however it is handed out to the
client: what the server decodes comes first in what the client prints, and unless the
server rejects the stream nothing else is printed but the end. -/
theorem reader_agrees
    (s : Input) :
    (packetDecoder.drain s.pending).items.map (shown decodeReplace user) <+:
        reader decodeReplace user s ∧
      ((packetDecoder.drain s.pending).failed = false →
        reader decodeReplace user s =
          (packetDecoder.drain s.pending).items.map (shown decodeReplace user) ++
            farewell user (atEnd s.idle)) := by
  obtain ⟨hfront, hsame⟩ := Decoder.drain_of_accepts clientDecoder
    (fun h => clientVerdict_of_done h) (fun h => clientVerdict_of_wait h) s.pending
  rw [reader_eq]
  refine ⟨(hfront.map _).trans (List.prefix_append _ _), fun hok => ?_⟩
  rw [hsame hok, hok]
  rfl

/-- Of a front of the packets that are sent, whatever their number of bytes in transit, the
client prints each packet that has arrived as a whole, in order, and nothing else. -/
theorem reader_prints_front
    {pkts : List Packet} (hsize : ∀ pkt ∈ pkts, pkt.body.length + 1 < 2 ^ 32) {s : Input}
    (hs : s.pending <+: pkts.flatMap encode) :
    ∃ front, front <+: pkts ∧
      reader decodeReplace user s =
        front.map (shown decodeReplace user) ++ farewell user (atEnd s.idle) ∧
      ∀ whole, whole <+: pkts → whole.flatMap encode <+: s.pending → whole <+: front := by
  obtain ⟨hfront, hok, hwhole⟩ := Decoder.drain_front (d := clientDecoder)
    (fun pkt hpkt => clientVerdict_encode (hsize pkt hpkt)) rfl hs
  refine ⟨_, hfront, ?_, hwhole⟩
  rw [reader_eq, hok]
  rfl

end Agreement

end Client
end ChatRoom
