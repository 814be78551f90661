import ChatRoom.Web.HttpConnection
import ChatRoom.Web.InputProtocol

/-!
# The end of a stream of requests or frames

`HttpConnection::onRead` and `WsConnection::onRead` receive until the socket has
nothing more to say and decode then; when the peer has closed its end they close
the connection without decoding.  So what is handed over are the requests and the
texts of the events before the last one.
-/

namespace ChatRoom
namespace Web

open Http Socket Incremental Runs

namespace HttpConnection

section Requests

variable (cb : Callbacks) (h : HttpId)

/-- The requests that `onRead` hands to `onRequest_`, unless the connection has been
closed. -/
def requestsOf (w : World) (s : Input) : List HttpRequest :=
  if (w.https h).state = .CLOSED then [] else (callsOfRead cb w h s).map RequestCall.req

/-- A readable event; the reactor has none for a connection that is closed. -/
def readEvent (w : World) (s : Input) : Except Exn World :=
  if (w.https h).state = .CLOSED then .ok w else onRead cb w h s

/-- All requests of the stream have been handed over when the connection is closed. -/
def HandsOverAll (w : World) (stream : EndedStream) : Prop :=
  outputs (requestsOf cb h) (readEvent cb h) w (stream.events ++ [stream.last]) =
    (requestDecoder.drain stream.bytes).items

/-- A handler that returns has left the read buffer and the state of the connection
alone. -/
def LeavesOpen : Prop :=
  ∀ w req w', cb.onRequest w h req = .ok w' →
    (w'.https h).readBuf = (w.https h).readBuf ∧ (w'.https h).state = (w.https h).state

end Requests

section EndOfStream

variable {cb : Callbacks} {h : HttpId}

/-- The loop hands over what the readable bytes drain to, and leaves the rest. -/
theorem requestLoop_drains
    (hcb : LeavesOpen cb h) {w w' : World} {fuel : Nat}
    (hfuel : (w.https h).readBuf.readable.length < fuel)
    (hok : requestLoop cb h fuel w = .ok w') :
    (callsOfLoop cb h fuel w).map RequestCall.req =
        (requestDecoder.drain (w.https h).readBuf.readable).items ∧
      (w'.https h).readBuf.readable =
        (requestDecoder.drain (w.https h).readBuf.readable).unread ∧
      (w'.https h).state = (w.https h).state := by
  induction fuel generalizing w with
  | zero =>
      omega
  | succ fuel ih =>
      rw [requestLoop] at hok
      rw [callsOfLoop]
      cases hverdict : requestVerdict (w.https h).readBuf.readable with
      | wait =>
          obtain ⟨req, readBuf, hparse, hread⟩ := parse_of_wait hverdict
          rw [hparse] at hok ⊢
          cases hok
          rw [Decoder.drain_wait (d := requestDecoder) _ hverdict]
          refine ⟨rfl, ?_, ?_⟩
          · simpa [World.setHttp] using hread
          · simp [World.setHttp]
      | done n req =>
          obtain ⟨readBuf, hparse, hread⟩ := parse_of_done hverdict
          have hbounds := requestVerdict_bounds hverdict
          rw [hparse] at hok ⊢
          dsimp only at hok ⊢
          rw [if_pos rfl] at hok ⊢
          obtain ⟨w₁, hrequest, hloop⟩ := bind_eq_ok.mp hok
          obtain ⟨hbuf, hstate⟩ := hcb _ _ _ hrequest
          have hbuf₁ : (w₁.https h).readBuf.readable = (w.https h).readBuf.readable.drop n := by
            rw [hbuf, ← hread]
            simp [World.setHttp]
          have hless : (w₁.https h).readBuf.readable.length < fuel := by
            rw [hbuf₁, List.length_drop]
            omega
          obtain ⟨hrequests, hunread, hstate'⟩ := ih hless hloop
          rw [hrequest, Decoder.drain_done (d := requestDecoder) hverdict, ← hbuf₁]
          refine ⟨?_, hunread, ?_⟩
          · dsimp only
            rw [List.map_cons, hrequests]
          · rw [hstate', hstate]
            simp [World.setHttp]
      | malformed =>
          exact absurd hverdict (requestVerdict_ne_malformed _)

/-- The connection is open and has the unread bytes of what it has seen. -/
structure Reading (h : HttpId) (seen : Bytes) (w : World) : Prop where
  opened : (w.https h).state ≠ .CLOSED
  unread : (w.https h).readBuf.readable = (requestDecoder.drain seen).unread

/-- A connection that has been started has seen nothing. -/
theorem reading_of_empty
    {w : World} (hopen : (w.https h).state ≠ .CLOSED)
    (hempty : (w.https h).readBuf.readable = []) :
    Reading h [] w where
  opened := hopen
  unread := by rw [hempty, Decoder.drain_wait (d := requestDecoder) [] rfl]

/-- A readable event of a peer that is there. -/
theorem Reading.receive
    (hcb : LeavesOpen cb h) {w w' : World} {seen : Bytes} (hw : Reading h seen w) {s : Input}
    (hidle : s.idle = .again) (hok : readEvent cb h w s = .ok w') :
    Reading h (seen ++ s.pending) w' ∧
      (requestDecoder.drain (seen ++ s.pending)).items =
        (requestDecoder.drain seen).items ++ requestsOf cb h w s := by
  obtain ⟨readBuf, hrecv, hread⟩ := recvLoop_again hidle (w.https h).readBuf
  have hdrain := Decoder.drain_append (d := requestDecoder) seen s.pending
  rw [Decoder.extend, drain_requests_failed, ← hw.unread, ← hread] at hdrain
  rw [readEvent, if_neg hw.opened, onRead, hrecv] at hok
  rw [requestsOf, if_neg hw.opened, callsOfRead, hrecv]
  have hset : ((w.setHttp h { w.https h with readBuf := readBuf }).https h).readBuf =
      readBuf := by
    simp [World.setHttp]
  have hfuel : ((w.setHttp h { w.https h with readBuf := readBuf }).https
      h).readBuf.readable.length < readBuf.readableBytes + 1 := by
    rw [hset, Buffer.length_readable]
    omega
  obtain ⟨hrequests, hunread, hstate⟩ := requestLoop_drains hcb hfuel hok
  rw [hset] at hrequests hunread
  refine ⟨⟨?_, ?_⟩, ?_⟩
  · rw [hstate]
    simpa [World.setHttp] using hw.opened
  · rw [hunread, hdrain]
    rfl
  · rw [hdrain]
    dsimp only
    rw [hrequests]
    rfl

/-- Any number of readable events of a peer that is there. -/
theorem Reading.run
    (hcb : LeavesOpen cb h) {w w' : World} {seen : Bytes} (hw : Reading h seen w)
    {events : List Input} (hidle : ∀ s ∈ events, s.idle = .again)
    (hrun : Runs.run (readEvent cb h) w events = .ok w') :
    Reading h (seen ++ events.flatMap Input.pending) w' ∧
      (requestDecoder.drain (seen ++ events.flatMap Input.pending)).items =
        (requestDecoder.drain seen).items ++
          outputs (requestsOf cb h) (readEvent cb h) w events := by
  induction events generalizing w seen with
  | nil =>
      cases hrun
      refine ⟨?_, ?_⟩
      · simpa using hw
      · simp [outputs]
  | cons s events ih =>
      obtain ⟨w₁, hread, hrest⟩ := run_cons.mp hrun
      obtain ⟨hw₁, hitems⟩ := hw.receive hcb (hidle s (by simp)) hread
      obtain ⟨hw', hitems'⟩ := ih hw₁ (fun t ht => hidle t (List.mem_cons_of_mem s ht)) hrest
      rw [List.flatMap_cons, ← List.append_assoc]
      refine ⟨hw', ?_⟩
      rw [hitems', hitems, outputs, hread, List.append_assoc]

/-- When the peer is gone, nothing is handed over. -/
theorem requestsOf_hangup
    (w : World) {s : Input} (hidle : s.idle ≠ .again) :
    requestsOf cb h w s = [] := by
  obtain ⟨readBuf, hrecv⟩ := recvLoop_gone hidle (w.https h).readBuf
  unfold requestsOf
  split
  · rfl
  · rw [callsOfRead, hrecv]
    rfl

/-- If the handler returns as long as the peer is there, all requests are handed over iff
the bytes of the last event complete none. -/
theorem handsOverAll_iff
    (hcb : LeavesOpen cb h) {w w' : World} (hopen : (w.https h).state ≠ .CLOSED)
    (hempty : (w.https h).readBuf.readable = []) (stream : EndedStream)
    (hrun : Runs.run (readEvent cb h) w stream.events = .ok w') :
    HandsOverAll cb h w stream ↔
      (requestDecoder.drain stream.early).items = (requestDecoder.drain stream.bytes).items := by
  obtain ⟨-, hitems⟩ := (reading_of_empty hopen hempty).run hcb stream.alive hrun
  rw [List.nil_append, Decoder.drain_wait (d := requestDecoder) [] rfl] at hitems
  rw [HandsOverAll, outputs_append hrun, outputs_singleton, requestsOf_hangup _ stream.hangup,
    List.append_nil]
  exact Eq.congr_left hitems.symm

end EndOfStream

end HttpConnection

namespace WsConnection

open Ws

section Texts

variable (cb : Callbacks) (x : WsId)

/-- The texts that `onRead` hands to `onText_`, unless the connection has been closed. -/
def textsOf (w : World) (s : Input) : List Bytes :=
  if (w.wss x).state = .ACTIVE then textPayloads (framesOfRead cb w x s) else []

/-- What the operations of `onRead` keep of the texts that have been handed over. -/
structure TextRule (I : List Bytes → World → Prop) : Prop where
  receive : ∀ texts w readBuf, I texts w → I texts (w.setWs x { w.wss x with readBuf := readBuf })
  onText : ∀ texts w payload, I texts w →
    I (texts ++ [payload]) (cb.onText (w.note (.text x payload)) x payload)
  dispatch : ∀ texts w f, f.opcode ≠ Opcode.TEXT.code → I texts w →
    I texts (dispatch cb w x f).1
  close : ∀ texts w, I texts w → I texts (close cb w x)

/-- A readable event; the reactor has none for a connection that is closed. -/
def readEvent (w : World) (s : Input) : Except Exn World :=
  if (w.wss x).state = .ACTIVE then onRead cb w x s else .ok w

/-- All texts of the stream have been handed over, in order, when the connection is
closed. -/
def HandsOverAll (w : World) (stream : EndedStream) : Prop :=
  textPayloads (frameDecoder.drain stream.bytes).items <+:
    outputs (textsOf cb x) (readEvent cb x) w (stream.events ++ [stream.last])

/-- The text handler leaves the read buffer and the state of the connection alone, and the
close handler leaves the state alone. -/
structure LeavesOpen : Prop extends KeepsInput cb x where
  state : ∀ w payload, ((cb.onText w x payload).wss x).state = (w.wss x).state
  closing : ∀ w, ((cb.onClose w x).wss x).state = (w.wss x).state

end Texts

section TextRule

variable {cb : Callbacks} {x : WsId} {I : List Bytes → World → Prop} {texts : List Bytes}
variable {w w' : World}

theorem TextRule.frame
    (rule : TextRule cb x I) (f : Frame) (hI : I texts w) :
    I (texts ++ textPayloads [f]) (WsConnection.dispatch cb w x f).1 := by
  by_cases htext : f.opcode = Opcode.TEXT.code
  · have hpayloads : textPayloads [f] = [f.payload] := by
      simp [textPayloads, htext]
    rw [hpayloads, dispatch_text cb w x htext]
    exact rule.onText texts w f.payload hI
  · have hpayloads : textPayloads [f] = [] := by
      simp [textPayloads, htext]
    rw [hpayloads, List.append_nil]
    exact rule.dispatch texts w f htext hI

theorem TextRule.frameLoop
    (rule : TextRule cb x I) {fuel : Nat} (hI : I texts w)
    (hok : WsConnection.frameLoop cb x fuel w = .ok w') :
    I (texts ++ textPayloads (framesOfLoop cb x fuel w)) w' := by
  have hnone : texts ++ textPayloads [] = texts := List.append_nil texts
  induction fuel generalizing texts w with
  | zero =>
      cases hok
      rw [framesOfLoop, hnone]
      exact hI
  | succ fuel ih =>
      rw [WsConnection.frameLoop] at hok
      rw [framesOfLoop]
      by_cases hshort : (w.wss x).readBuf.readableBytes < 2
      · rw [if_pos hshort] at hok ⊢
        cases hok
        rwa [hnone]
      rw [if_neg hshort] at hok ⊢
      cases hdecode : (tryDecode (w.wss x).readBuf.peek
          (w.wss x).readBuf.readableBytes).result with
      | error e =>
          rw [hdecode] at hok
          cases hok
      | ok r =>
          rw [hdecode] at hok
          dsimp only at hok ⊢
          by_cases hmore : r.consumed = -1
          · rw [if_pos hmore] at hok ⊢
            cases hok
            rwa [hnone]
          rw [if_neg hmore] at hok ⊢
          by_cases hbad : r.consumed = 0
          · rw [if_pos hbad] at hok ⊢
            cases hok
            rw [hnone]
            exact rule.close texts w hI
          rw [if_neg hbad] at hok ⊢
          have hconsumed : I texts (consume w x r.consumed) := rule.receive texts w _ hI
          have hframe := rule.frame r.frame hconsumed
          generalize WsConnection.dispatch cb (consume w x r.consumed) x r.frame = dispatched
            at hok hframe ⊢
          obtain ⟨w₁, goes⟩ := dispatched
          cases goes with
          | true =>
              have hrest := ih hframe hok (List.append_nil _)
              rw [List.append_assoc, ← textPayloads_append] at hrest
              exact hrest
          | false =>
              cases hok
              exact hframe

/-- These are the texts: what the operations of `onRead` keep of the texts so far, it keeps
of them and its own. -/
theorem TextRule.onRead
    (rule : TextRule cb x I) (hactive : (w.wss x).state = .ACTIVE) {s : Input}
    (hI : I texts w) (hok : WsConnection.onRead cb w x s = .ok w') :
    I (texts ++ textsOf cb x w s) w' := by
  rw [WsConnection.onRead] at hok
  rw [textsOf, if_pos hactive, framesOfRead]
  generalize recvLoop (s.pending.length + 1) (w.wss x).readBuf s = received at hok ⊢
  obtain ⟨readBuf, ending⟩ := received
  have hreceived := rule.receive texts w readBuf hI
  cases ending with
  | hangup =>
      cases hok
      have hnone : texts ++ textPayloads [] = texts := List.append_nil texts
      rw [hnone]
      exact rule.close texts _ hreceived
  | drained =>
      exact rule.frameLoop hreceived hok

end TextRule

section Refused

/-- The frames in front of the first one that the server refuses. -/
def taken (bs : Bytes) : List Frame :=
  (frameDecoder.drain bs).items.takeWhile goesOn

variable {bs : Bytes}

/-- The frame that ends a run is not a text. -/
theorem textPayloads_decoded
    (fuel : Nat) (bs : Bytes) :
    textPayloads (frameRun fuel bs).decoded = textPayloads (frameRun fuel bs).frames := by
  unfold FrameRun.decoded
  cases hend : (frameRun fuel bs).ending with
  | refuses f =>
      have hgo := frameRun_refuses hend
      have htext : f.opcode ≠ Opcode.TEXT.code := by
        intro htext
        rw [goesOn_iff.mpr (.inl htext)] at hgo
        cases hgo
      simp [textPayloads, htext]
  | waits | rejects | throws =>
      rfl

/-- The loop takes the frames in front of the first one that is refused.  It ends there
if there is one; and it takes more only if the stream cannot go on behind them. -/
theorem frameRun_taken
    {fuel : Nat} (hfuel : bs.length ≤ fuel) :
    (∃ f, (frameRun fuel bs).ending = .refuses f ∧ (frameRun fuel bs).frames = taken bs ∧
      ∃ g ∈ (frameDecoder.drain bs).items, goesOn g = false) ∨
    (∀ g ∈ (frameDecoder.drain bs).items, goesOn g = true) ∧
      (frameDecoder.drain bs).items <+: (frameRun fuel bs).frames := by
  induction bs using Decoder.drain_induction (d := frameDecoder) generalizing fuel with
  | wait bs h =>
      rw [Decoder.drain_wait _ h]
      exact .inr ⟨by simp, List.nil_prefix⟩
  | malformed bs h =>
      rw [Decoder.drain_malformed h]
      exact .inr ⟨by simp, List.nil_prefix⟩
  | done bs n f h ih =>
      have hbounds := frameDecoder.done_bounds h
      obtain ⟨fuel, rfl⟩ : ∃ k, fuel = k + 1 := ⟨fuel - 1, by omega⟩
      rw [frameRun_done h, taken, Decoder.drain_done h]
      dsimp only
      cases hgo : goesOn f with
      | false =>
          exact .inl ⟨f, rfl, by simp [hgo], f, by simp, hgo⟩
      | true =>
          rw [if_pos rfl, List.takeWhile_cons, if_pos hgo]
          have hdrop : (bs.drop n).length ≤ fuel := by
            rw [List.length_drop]
            omega
          rcases ih hdrop with ⟨g, hend, hframes, k, hk, hkgo⟩ | ⟨hall, hframes⟩
          · exact .inl ⟨g, hend, by rw [hframes]; rfl, k, by simp [hk], hkgo⟩
          · refine .inr ⟨?_, ?_⟩
            · simpa [hgo] using hall
            · simpa using hframes

end Refused

section EndOfStream

variable {cb : Callbacks} {x : WsId}

/-- The connection is active, and has the unread bytes of what it has seen; that is a
stream of frames which the server does not refuse. -/
structure Reading (x : WsId) (seen : Bytes) (w : World) : Prop where
  active : (w.wss x).state = .ACTIVE
  unread : (w.wss x).readBuf.readable = (frameDecoder.drain seen).unread
  accepted : (frameDecoder.drain seen).failed = false
  supported : ∀ f ∈ (frameDecoder.drain seen).items, goesOn f = true

theorem reading_of_empty
    {w : World} (hactive : (w.wss x).state = .ACTIVE)
    (hempty : (w.wss x).readBuf.readable = []) :
    Reading x [] w := by
  have hdrain : frameDecoder.drain [] = { items := [], unread := [], failed := false } :=
    Decoder.drain_wait _ rfl
  constructor
  · exact hactive
  · rw [hempty, hdrain]
  · rw [hdrain]
  · simp [hdrain]

/-- A handler that leaves the connection open keeps it active while frames are taken. -/
theorem activeRule
    (hcb : LeavesOpen cb x) :
    FrameRule cb x fun _ w => (w.wss x).state = .ACTIVE where
  keepsInput := hcb.toKeepsInput
  receive := by
    intro done w readBuf h
    simpa [World.setWs] using h
  dispatch := by
    intro done w f h hgo
    rcases goesOn_iff.mp hgo with hf | hf | hf | hf
    · rw [dispatch_text cb w x hf]
      exact (hcb.state _ _).trans h
    · rw [dispatch_ping cb w x hf]
      simpa [wss_queue] using h
    · rw [dispatch_pong cb w x hf]
      exact h
    · rw [dispatch_close cb w x hf]
      simpa [wss_queue, World.setWs] using h

/-- When the peer is gone, nothing is handed over. -/
theorem textsOf_hangup
    (hcb : LeavesOpen cb x) (w : World) {s : Input} (hidle : s.idle ≠ .again) :
    textsOf cb x w s = [] := by
  rw [textsOf, framesOfRead_eq hcb.toKeepsInput, if_neg hidle]
  split <;> rfl

/-- A connection that is not active hands nothing over. -/
theorem outputs_inactive
    {w : World} (hclosed : (w.wss x).state ≠ .ACTIVE) (events : List Input) :
    outputs (textsOf cb x) (readEvent cb x) w events = [] := by
  induction events with
  | nil =>
      rfl
  | cons s events ih =>
      rw [outputs, textsOf, if_neg hclosed, readEvent, if_neg hclosed]
      exact ih

/-- A connection that has been closed is not active. -/
theorem close_inactive
    (hcb : LeavesOpen cb x) (w : World) :
    ((close cb w x).wss x).state ≠ .ACTIVE := by
  unfold close
  split
  · next hclosed =>
      simp [hclosed]
  · have hstate := hcb.closing
      ((w.setWs x { w.wss x with state := .CLOSED }).removeFd
        ((w.setWs x { w.wss x with state := .CLOSED }).wss x).fd)
    have hset : ((w.setWs x { w.wss x with state := .CLOSED }).wss x).state = .CLOSED := by
      simp [World.setWs]
    intro hactive
    rw [show ((w.setWs x { w.wss x with state := .CLOSED }).removeFd _).wss x =
      (w.setWs x { w.wss x with state := .CLOSED }).wss x from rfl, hset] at hstate
    rw [show ∀ (v : World) (fd : Fd), (v.closeFd fd).wss = v.wss from fun _ _ => rfl,
      hstate] at hactive
    cases hactive

/-- The frames in front of a refused one do not change when more bytes follow. -/
theorem taken_append
    {front : Bytes} {f : Frame} (hf : f ∈ (frameDecoder.drain front).items)
    (hgo : goesOn f = false) (more : Bytes) :
    taken (front ++ more) = taken front := by
  obtain ⟨rest, hrest⟩ := frameDecoder.items_prefix front more
  rw [taken, taken, ← hrest, List.takeWhile_append, if_neg]
  intro hlen
  have hall : (frameDecoder.drain front).items.takeWhile goesOn =
      (frameDecoder.drain front).items :=
    (List.takeWhile_prefix goesOn).eq_of_length hlen
  rw [List.takeWhile_eq_self_iff.mp hall f hf] at hgo
  cases hgo

/-- What follows is read behind the unread bytes. -/
theorem Reading.drain_received
    {w : World} {seen : Bytes} (hw : Reading x seen w) (more : Bytes) :
    frameDecoder.drain (seen ++ more) =
      { items := (frameDecoder.drain seen).items ++
          (frameDecoder.drain ((w.wss x).readBuf.readable ++ more)).items
        unread := (frameDecoder.drain ((w.wss x).readBuf.readable ++ more)).unread
        failed := (frameDecoder.drain ((w.wss x).readBuf.readable ++ more)).failed } := by
  rw [Decoder.drain_append, Decoder.extend, if_neg (by simp [hw.accepted]), ← hw.unread]

/-- A refused frame ends what is taken. -/
theorem Reading.taken_received
    {w : World} {seen more : Bytes} (hw : Reading x seen w) {f : Frame}
    (hf : f ∈ (frameDecoder.drain ((w.wss x).readBuf.readable ++ more)).items)
    (hgo : goesOn f = false) (later : Bytes) :
    taken (seen ++ more ++ later) =
      (frameDecoder.drain seen).items ++ taken ((w.wss x).readBuf.readable ++ more) := by
  have hdrain := hw.drain_received more
  have hfront : f ∈ (frameDecoder.drain (seen ++ more)).items := by
    rw [hdrain]
    exact List.mem_append_right _ hf
  rw [taken_append hfront hgo, taken, taken, hdrain]
  exact List.takeWhile_append_of_pos hw.supported

theorem Reading.next
    {w w' : World} {seen more : Bytes} (hw : Reading x seen w)
    (hactive : (w'.wss x).state = .ACTIVE)
    (hunread : (w'.wss x).readBuf.readable =
      (frameDecoder.drain ((w.wss x).readBuf.readable ++ more)).unread)
    (hfailed : (frameDecoder.drain ((w.wss x).readBuf.readable ++ more)).failed = false)
    (hall : ∀ f ∈ (frameDecoder.drain ((w.wss x).readBuf.readable ++ more)).items,
      goesOn f = true) :
    Reading x (seen ++ more) w' := by
  have hdrain := hw.drain_received more
  constructor
  · exact hactive
  · rw [hdrain, hunread]
  · rw [hdrain, hfailed]
  · rw [hdrain]
    exact List.forall_mem_append.mpr ⟨hw.supported, hall⟩

/-- The stream cannot go on behind its frames, whatever the loop makes of it. -/
theorem Reading.stopped
    {w : World} {seen more : Bytes} (hw : Reading x seen w) (later : Bytes)
    (hfailed : (frameDecoder.drain ((w.wss x).readBuf.readable ++ more)).failed = true)
    (hall : ∀ f ∈ (frameDecoder.drain ((w.wss x).readBuf.readable ++ more)).items,
      goesOn f = true) :
    (frameDecoder.drain (seen ++ more ++ later)).failed = true ∧
      (frameDecoder.drain (seen ++ more ++ later)).items =
        (frameDecoder.drain seen).items ++
          (frameDecoder.drain ((w.wss x).readBuf.readable ++ more)).items ∧
      ∀ f ∈ (frameDecoder.drain (seen ++ more ++ later)).items, goesOn f = true := by
  have hdrain := hw.drain_received more
  have hstop : (frameDecoder.drain (seen ++ more)).failed = true := by
    rw [hdrain, hfailed]
  obtain ⟨hfails, hitems⟩ := Decoder.drain_append_of_failed hstop later
  rw [hdrain] at hitems
  refine ⟨hfails, hitems, ?_⟩
  rw [hitems]
  exact List.forall_mem_append.mpr ⟨hw.supported, hall⟩

/-- The texts that are handed over while the peer is there: those of the frames in front
of the first one that is refused, and possibly more if the stream cannot go on behind
them. -/
theorem Reading.outputs
    (hcb : LeavesOpen cb x) {w : World} {seen : Bytes} (hw : Reading x seen w)
    {events : List Input} (hidle : ∀ s ∈ events, s.idle = .again) {last : Input}
    (hlast : last.idle ≠ .again) {bs : Bytes}
    (hbs : seen ++ events.flatMap Input.pending = bs) :
    ∃ extra, textPayloads (frameDecoder.drain seen).items ++
        Runs.outputs (textsOf cb x) (readEvent cb x) w (events ++ [last]) =
          textPayloads (taken bs) ++ extra ∧
      (extra = [] ∨ (frameDecoder.drain bs).failed = true ∧
        ∀ f ∈ (frameDecoder.drain bs).items, goesOn f = true) := by
  induction events generalizing w seen with
  | nil =>
      rw [List.flatMap_nil, List.append_nil] at hbs
      subst hbs
      refine ⟨[], ?_, .inl rfl⟩
      rw [List.nil_append, outputs_singleton, textsOf_hangup hcb _ hlast, taken,
        List.takeWhile_eq_self_iff.mpr hw.supported]
  | cons s events ih =>
      rw [List.flatMap_cons, ← List.append_assoc] at hbs
      have hagain := hidle s (by simp)
      obtain ⟨w₁, hactive, hunread, hread⟩ :=
        @onRead_frames cb x _ (activeRule hcb) [] w hw.active s hagain _ rfl
      have htexts : textsOf cb x w s = textPayloads (frameRun
          ((w.wss x).readBuf.readable ++ s.pending).length
            ((w.wss x).readBuf.readable ++ s.pending)).frames := by
        rw [textsOf, if_pos hw.active, framesOfRead_eq hcb.toKeepsInput, if_pos hagain, received]
        exact textPayloads_decoded _ _
      rw [List.cons_append, Runs.outputs, htexts, readEvent, if_pos hw.active, hread]
      rcases frameRun_taken (Nat.le_refl ((w.wss x).readBuf.readable ++ s.pending).length) with
        ⟨f, hend, hframes, g, hg, hrefused⟩ | ⟨hall, hmore⟩
      · -- the connection has closed itself
        refine ⟨[], ?_, .inl rfl⟩
        rw [hend, LoopEnd.result, ← hbs, hw.taken_received hg hrefused, hframes]
        dsimp only
        rw [outputs_inactive (close_inactive hcb w₁), textPayloads_append, List.append_nil,
          List.append_nil]
      · cases hfailed :
            (frameDecoder.drain ((w.wss x).readBuf.readable ++ s.pending)).failed with
        | true =>
            obtain ⟨hstop, hitems, hsupported⟩ :=
              hw.stopped (events.flatMap Input.pending) hfailed hall
            rw [hbs] at hstop hitems hsupported
            obtain ⟨more, hmore⟩ := hmore
            rw [← hmore, taken, List.takeWhile_eq_self_iff.mpr hsupported, hitems,
              textPayloads_append, textPayloads_append]
            refine ⟨textPayloads more ++ ?later, ?texts, .inr ⟨hstop, hitems ▸ hsupported⟩⟩
            case texts =>
              rw [List.append_assoc, List.append_assoc]
        | false =>
            have hrun := frameRun_of_drain (Nat.le_refl _) hfailed hall
            rw [hrun] at hunread ⊢
            have hnext : Reading x (seen ++ s.pending) w₁ :=
              hw.next hactive hunread hfailed hall
            obtain ⟨extra, heq, hextra⟩ :=
              ih hnext (fun t ht => hidle t (List.mem_cons_of_mem s ht)) hbs
            refine ⟨extra, ?_, hextra⟩
            rw [← heq, hw.drain_received, textPayloads_append, List.append_assoc]
            rfl

/-- All texts are handed over iff none is completed by the bytes of the last event or
stands behind a frame that the server refuses. -/
theorem handsOverAll_iff
    (hcb : LeavesOpen cb x) {w : World} (hactive : (w.wss x).state = .ACTIVE)
    (hempty : (w.wss x).readBuf.readable = []) (stream : EndedStream) :
    HandsOverAll cb x w stream ↔
      textPayloads (taken stream.early) =
        textPayloads (frameDecoder.drain stream.bytes).items := by
  have hnil : (frameDecoder.drain []).items = [] := by
    rw [Decoder.drain_wait (d := frameDecoder) [] rfl]
  obtain ⟨extra, houtputs, hextra⟩ := (reading_of_empty hactive hempty).outputs hcb
    stream.alive stream.hangup (List.nil_append stream.early)
  have hnone : textPayloads [] = [] := rfl
  rw [hnil, hnone, List.nil_append] at houtputs
  rw [HandsOverAll, houtputs]
  obtain ⟨rest, hrest⟩ : taken stream.early <+: (frameDecoder.drain stream.bytes).items :=
    (List.takeWhile_prefix goesOn).trans (frameDecoder.items_prefix stream.early _)
  constructor
  · intro hall
    rcases hextra with rfl | ⟨hfailed, hsupported⟩
    · rw [List.append_nil, ← hrest, textPayloads_append] at hall
      have hlen := hall.length_le
      rw [List.length_append] at hlen
      have hshort : textPayloads rest = [] := List.length_eq_zero_iff.mp (by omega)
      rw [← hrest, textPayloads_append, hshort, List.append_nil]
    · rw [EndedStream.bytes, (Decoder.drain_append_of_failed hfailed _).2, taken,
        List.takeWhile_eq_self_iff.mpr hsupported]
  · intro heq
    rw [← heq]
    exact List.prefix_append _ _

end EndOfStream

end WsConnection

end Web
end ChatRoom
