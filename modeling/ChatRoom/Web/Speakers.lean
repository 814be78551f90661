import ChatRoom.Web.Departure
import ChatRoom.Web.Registries

/-!
# What browsers are heard to say

The frames of a browser arrive in pieces, between events of other connections, which may
write to the browser at any time.  Nonetheless the texts handed over for a WebSocket
connection are a front of the texts in the bytes it has received; while the connection is in
the hub they are all of them, and no frame was unsupported.  What is said on its socket is the
chats among these texts, in order, under the name of the connection (`browsers_heard`).

The bytes are fewer than `2 ^ 31`: the count of a frame is an `int`.
-/

namespace ChatRoom
namespace Web

open Http Socket Runs Ws Incremental

/-- The texts handed over are a front of those in the stream.  While the connection is in the
hub they are all of them, and the last, incomplete frame is in the read buffer. -/
def TextsHeard (x : WsId) (stream : Bytes) (w : World) : Prop :=
  stream.length < 2 ^ 31 →
    heard x w.trace <+: WsConnection.textPayloads (frameDecoder.drain stream).items ∧
      (x ∈ w.hub →
        (∀ f ∈ (frameDecoder.drain stream).items, WsConnection.goesOn f = true) ∧
          heard x w.trace = WsConnection.textPayloads (frameDecoder.drain stream).items ∧
            (w.wss x).readBuf.readable = (frameDecoder.drain stream).unread)

section Reads

open WsConnection

variable {J : JsonLib} {x : WsId} {stream bs : Bytes} {w w' : World}

theorem textPayloads_front
    {frames frames' : List Frame} (h : frames <+: frames') :
    textPayloads frames <+: textPayloads frames' := by
  obtain ⟨more, rfl⟩ := h
  exact ⟨textPayloads more, (textPayloads_append frames more).symm⟩

/-- What the protocol rejects is rejected, or waited for in vain: less than `2 ^ 31` bytes
are no frame of that length. -/
theorem decodeBytes_of_malformed
    (hsmall : bs.length < 2 ^ 31) (h : frameDecoder.decode bs = .malformed) :
    decodeBytes bs = .ok protocolError ∨ decodeBytes bs = .ok needMore ∨
      ∃ e, decodeBytes bs = .error e := by
  have hheader : headerLength (memory bs) = 2 + extensionLength (memory bs) + 4 := rfl
  have h : frameVerdict bs = .malformed := h
  unfold frameVerdict at h
  dsimp only at h
  rw [decodeBytes, tryDecode_eq]
  split at h
  · cases h
  · next hlen =>
      rw [if_neg hlen]
      split at h
      · next hrsv =>
          rw [if_pos hrsv]
          exact .inl rfl
      · next hrsv =>
          rw [if_neg hrsv]
          split at h
          · cases h
          · next hext =>
              rw [if_neg hext]
              by_cases hmasked : Masked (memory bs)
              · rw [if_neg (not_not.mpr hmasked)]
                split
                · exact .inr (.inl rfl)
                · next hlong =>
                    split
                    · exact .inr (.inr ⟨_, rfl⟩)
                    · next hmax =>
                        exfalso
                        simp only [VECTOR_MAX_SIZE] at hmax
                        split at h
                        · next hcause =>
                            rcases hcause with hmask | hbig
                            · exact hmask hmasked
                            · omega
                        · split at h
                          · cases h
                          · cases h
              · rw [if_pos hmasked]
                exact .inl rfl

/-- The loop over less than `2 ^ 31` bytes decodes frames of the protocol, from the front.
When it waits it has decoded all of them, and has refused none. -/
theorem frameRun_front
    {fuel : Nat} (hfuel : bs.length ≤ fuel) (hsmall : bs.length < 2 ^ 31) :
    (frameRun fuel bs).frames <+: (frameDecoder.drain bs).items ∧
      ((frameRun fuel bs).ending = .waits →
        (∀ f ∈ (frameDecoder.drain bs).items, goesOn f = true) ∧
          (frameRun fuel bs).frames = (frameDecoder.drain bs).items ∧
            (frameRun fuel bs).unread = (frameDecoder.drain bs).unread) := by
  induction fuel generalizing bs with
  | zero =>
      obtain rfl : bs = [] := List.length_eq_zero_iff.mp (Nat.le_zero.mp hfuel)
      rw [Decoder.drain_wait (d := frameDecoder) [] rfl, frameRun]
      exact ⟨List.nil_prefix, fun _ => ⟨by simp, rfl, rfl⟩⟩
  | succ fuel ih =>
      cases hdec : frameDecoder.decode bs with
      | malformed =>
          rw [Decoder.drain_malformed hdec, frameRun]
          rcases decodeBytes_of_malformed hsmall hdec with h | h | ⟨e, h⟩
          · rw [h]
            exact ⟨List.nil_prefix, fun hend => by cases hend⟩
          · rw [h]
            exact ⟨List.nil_prefix, fun _ => ⟨by simp, rfl, rfl⟩⟩
          · rw [h]
            exact ⟨List.nil_prefix, fun hend => by cases hend⟩
      | wait =>
          rw [Decoder.drain_wait _ hdec, frameRun, decodeBytes_of_wait hdec]
          exact ⟨List.nil_prefix, fun _ => ⟨by simp, rfl, rfl⟩⟩
      | done n f =>
          have hbounds := frameDecoder.done_bounds hdec
          have hdrop : (bs.drop n).length ≤ fuel ∧ (bs.drop n).length < 2 ^ 31 := by
            rw [List.length_drop]
            omega
          rw [Decoder.drain_done hdec, frameRun_done hdec]
          by_cases hgo : goesOn f = true
          · obtain ⟨hfront, hwaits⟩ := ih hdrop.1 hdrop.2
            rw [if_pos hgo]
            refine ⟨List.cons_prefix_cons.mpr ⟨rfl, hfront⟩, fun hend => ?_⟩
            obtain ⟨hall, hframes, hunread⟩ := hwaits hend
            exact ⟨List.forall_mem_cons.mpr ⟨hgo, hall⟩, congrArg (f :: ·) hframes, hunread⟩
          · rw [if_neg hgo]
            exact ⟨List.nil_prefix, fun hend => by cases hend⟩

/-- A connection that is closed leaves the hub. -/
theorem not_mem_hub_close
    (J : JsonLib) (hactive : (w.wss x).state = .ACTIVE) :
    x ∉ (close (WsHub.callbacks J) w x).hub := by
  have hopen : ¬ (w.wss x).state = .CLOSED := by
    rw [hactive]
    decide
  rw [close, if_neg hopen]
  intro hx
  exact (UnorderedSet.mem_erase.mp hx).1 rfl

/-- A readable event of the connection. -/
theorem TextsHeard.read
    (htexts : TextsHeard x stream w) (hx : x ∈ w.hub) (hactive : (w.wss x).state = .ACTIVE)
    {input : Input} (hok : onRead (WsHub.callbacks J) w x input = .ok w') :
    TextsHeard x (stream ++ input.pending) w' := by
  intro hsmall
  rw [List.length_append] at hsmall
  obtain ⟨-, hall⟩ := htexts (by omega)
  obtain ⟨hgo, hheard, hunread⟩ := hall hx
  have hbs : ((w.wss x).readBuf.readable ++ input.pending).length < 2 ^ 31 := by
    have hle := Decoder.length_unread_le (d := frameDecoder) stream
    rw [List.length_append, hunread]
    omega
  rw [Decoder.drain_append_unread, ← hunread]
  dsimp only
  rw [textPayloads_append]
  by_cases hidle : input.idle = .again
  · have hstart : heard x w.trace = heard x w.trace ++ textPayloads [] ∧
        (w.wss x).state = (w.wss x).state := ⟨(List.append_nil _).symm, rfl⟩
    obtain ⟨w₁, ⟨hheard₁, hstate₁⟩, hunread₁, hread⟩ :=
      onRead_frames (heardRule J x w) hstart hidle rfl
    obtain ⟨hfront, hwaits⟩ := frameRun_front (Nat.le_refl _) hbs
    rw [List.nil_append, hheard] at hheard₁
    have hmore : heard x w₁.trace <+: textPayloads (frameDecoder.drain stream).items ++
        textPayloads
          (frameDecoder.drain ((w.wss x).readBuf.readable ++ input.pending)).items := by
      rw [hheard₁]
      exact (List.prefix_append_right_inj _).mpr (textPayloads_front hfront)
    have hclosed (hclose : close (WsHub.callbacks J) w₁ x = w') :
        heard x w'.trace = heard x w₁.trace ∧ x ∉ w'.hub := by
      rw [← hclose, (close_hub J w₁ x).2.1]
      exact ⟨rfl, not_mem_hub_close J (hstate₁.trans hactive)⟩
    rw [hok] at hread
    cases hend : (frameRun ((w.wss x).readBuf.readable ++ input.pending).length
        ((w.wss x).readBuf.readable ++ input.pending)).ending with
    | waits =>
        rw [hend, LoopEnd.result, Except.ok.injEq] at hread
        subst hread
        obtain ⟨hgo', hframes, hrest⟩ := hwaits hend
        refine ⟨hmore, fun _ => ⟨?_, ?_, hunread₁.trans hrest⟩⟩
        · intro f hf
          rcases List.mem_append.mp hf with hf | hf
          · exact hgo f hf
          · exact hgo' f hf
        · rw [hheard₁, hframes]
    | rejects | refuses =>
        rw [hend, LoopEnd.result, Except.ok.injEq] at hread
        obtain ⟨hsame, hgone⟩ := hclosed hread.symm
        rw [hsame]
        exact ⟨hmore, fun hx' => absurd hx' hgone⟩
    | throws e =>
        rw [hend] at hread
        cases hread
  · obtain ⟨readBuf, hclose⟩ := onRead_hangup (WsHub.callbacks J) w x hidle
    rw [hclose, Except.ok.injEq] at hok
    subst hok
    have hset : ((w.setWs x { w.wss x with readBuf := readBuf }).wss x).state = .ACTIVE := by
      simpa [World.setWs] using hactive
    rw [(close_hub J _ x).2.1]
    refine ⟨?_, fun hx' => absurd hx' (not_mem_hub_close J hset)⟩
    have hsame : heard x (w.setWs x { w.wss x with readBuf := readBuf }).trace =
        heard x w.trace := rfl
    rw [hsame, hheard]
    exact List.prefix_append _ _

/-- What is not about the connection, or only makes it leave the hub. -/
theorem TextsHeard.still
    (htexts : TextsHeard x stream w) (hheard : heard x w'.trace = heard x w.trace)
    (hunread : x ∈ w'.hub → x ∈ w.hub ∧
      (w'.wss x).readBuf.readable = (w.wss x).readBuf.readable) :
    TextsHeard x stream w' := by
  intro hsmall
  obtain ⟨hfront, hall⟩ := htexts hsmall
  rw [hheard]
  refine ⟨hfront, fun hx' => ?_⟩
  obtain ⟨hx, hsame⟩ := hunread hx'
  rw [hsame]
  exact hall hx

/-- Sending does not matter. -/
theorem TextsHeard.write
    (htexts : TextsHeard x stream w) (J : JsonLib) (sends : List SendResult) :
    TextsHeard x stream (onWrite (WsHub.callbacks J) x w sends) := by
  refine onWrite_keeps (I := TextsHeard x stream) ?_ ?_ ?_ htexts sends
  · intro w₁ n htexts₁
    refine htexts₁.still ?_ fun hx => ⟨hx, ?_⟩
    · simp [wrote, World.setWs, World.note, heard]
    · simp [wrote, World.setWs, World.note]
  · intro w₁ htexts₁
    refine htexts₁.still ?_ fun hx => ⟨?_, ?_⟩
    · rw [(close_hub J w₁ x).2.1]
    · revert hx
      rw [close]
      split
      · exact id
      · exact fun hx => (UnorderedSet.mem_erase.mp hx).2
    · rw [(close_hub J w₁ x).1]
  · intro w₁ _ htexts₁
    refine htexts₁.still rfl fun hx => ⟨hx, ?_⟩
    simp [World.setWs]

end Reads

/-- The texts of a connection are heard; a connection that has not been constructed has
received nothing. -/
structure Attends (x : WsId) (received : List Arrival) (w : World) : Prop where
  fresh : w.wsAllocated ≤ x → heard x w.trace = [] ∧ bytesFor (.ws x) received = []
  texts : TextsHeard x (bytesFor (.ws x) received) w

section Steps

variable {cfg : Config} {x : WsId} {received more : List Arrival} {w w' : World} {e : Event}

theorem textsHeard_nil
    (hheard : heard x w.trace = []) (hunread : (w.wss x).readBuf.readable = []) :
    TextsHeard x [] w := by
  have hempty : frameDecoder.drain [] = { items := [], unread := [], failed := false } :=
    Decoder.drain_wait _ rfl
  intro _
  rw [hempty, hheard, hunread]
  exact ⟨List.nil_prefix, fun _ => ⟨by simp, rfl, rfl⟩⟩

/-- An event of the connection. -/
theorem TextsHeard.event
    {stream : Bytes} (htexts : TextsHeard x stream w) (hx : x ∈ w.hub)
    (hactive : (w.wss x).state = .ACTIVE) {fd : Fd} {events : Ready} {input : Input}
    {sends : List SendResult} (ht : w.reactor.contexts fd = some (.ws x))
    (hok : handleEvent cfg w fd events input sends = .ok w') :
    TextsHeard x (stream ++ bytesFor (.ws x) (arrivals w (.ready fd events input sends))) w' := by
  obtain ⟨w₁, hfirst, hsecond⟩ := handleEvent_cases ht hok
  have htexts₁ : TextsHeard x (stream ++
      bytesFor (.ws x) (arrivals w (.ready fd events input sends))) w₁ := by
    rw [arrivals_registered ht]
    split at hfirst
    · next hreads =>
        rw [if_pos hreads]
        simpa [bytesFor] using htexts.read hx hactive hfirst
    · next hreads =>
        cases hfirst
        rw [if_neg hreads]
        simpa [bytesFor] using htexts
  rcases hsecond with rfl | ⟨-, -, hsecond⟩
  · exact htexts₁
  · cases hsecond
    exact htexts₁.write cfg.json sends

/-- A connection that an event of an HTTP connection puts into the hub has an empty read
buffer. -/
theorem unread_http
    (cfg : Config) (h : HttpId) (x : WsId) :
    HttpRule cfg h (fun w => x ∉ w.hub)
      (fun w => x ∈ w.hub → (w.wss x).readBuf.readable = []) where
  receive _ _ hx := hx
  request w req w' hx hok := by rwa [dispatch_hub hok]
  turn _ hx hx' := absurd hx' hx
  wrote _ _ hw := hw
  flushed _ hw := hw
  close := by
    intro w w' hw hok
    by_cases hclosed : (w.https h).state = .CLOSED
    · rw [HttpConnection.close, if_pos hclosed, Except.ok.injEq] at hok
      exact hok ▸ hw
    · obtain ⟨w₁, hclose, rfl⟩ := HttpConnection.close_cases hclosed hok
      have hw₁ : x ∈ w₁.hub → (w₁.wss x).readBuf.readable = [] := by
        rcases HttpServer.onClose_cases hclose with ⟨-, -, w₂, hadopt, rfl⟩ | ⟨-, rfl⟩
        · intro hx
          have hx : x ∈ w₂.hub := hx
          obtain ⟨-, -, -, -, hwss, -⟩ := adoptConnection_spec rfl hadopt
          rw [(adoptConnection_room hadopt).2, UnorderedSet.mem_insert] at hx
          show (w₂.wss x).readBuf.readable = []
          rw [hwss]
          rcases eq_or_ne x (HttpConnection.detached w h).wsAllocated with rfl | hne
          · rw [Function.update_self]
            rfl
          · rw [Function.update_of_ne hne]
            exact hw (hx.resolve_left hne)
        · exact hw
      split
      · exact hw₁
      · exact hw₁

/-- An event that is not about the connection, or a step without an event. -/
theorem Attends.still
    (hx : Attends x received w) (hmore : bytesFor (.ws x) more = [])
    (hheard : heard x w'.trace = heard x w.trace) (hws : w.wsAllocated ≤ w'.wsAllocated)
    (hunread : x ∈ w'.hub → x ∈ w.hub ∧
      (w'.wss x).readBuf.readable = (w.wss x).readBuf.readable) :
    Attends x (received ++ more) w' := by
  have hsame : bytesFor (.ws x) (received ++ more) = bytesFor (.ws x) received := by
    rw [bytesFor_append, hmore, List.append_nil]
  refine ⟨fun hnew => ?_, ?_⟩
  · rw [hheard, hsame]
    exact hx.fresh (hws.trans hnew)
  · rw [hsame]
    exact hx.texts.still hheard hunread

/-- An event of another connection, which may construct this one. -/
theorem Attends.aside
    (hx : Attends x received w) (ho : Orderly w) {fd : Fd} {events : Ready} {input : Input}
    {sends : List SendResult} {t : Target} (ht : w.reactor.contexts fd = some t)
    (hne : t ≠ .ws x) (hok : step cfg w (.ready fd events input sends) = .ok w') :
    Attends x (received ++ arrivals w (.ready fd events input sends)) w' := by
  have hhandle : handleEvent cfg w fd events input sends = .ok w' := hok
  have haside := handleEvent_aside ht hhandle
  have hmore : bytesFor (.ws x) (arrivals w (.ready fd events input sends)) = [] :=
    bytesFor_arrivals_other ht hne
  have hheard := haside.heard hne
  by_cases hborn : x ∉ w.hub ∧ x ∈ w'.hub
  · obtain ⟨hold, hnew⟩ := hborn
    obtain ⟨hsilent, hnothing⟩ := hx.fresh (step_newborn hold hok hnew).1
    have hunread : (w'.wss x).readBuf.readable = [] := by
      cases t with
      | http h =>
          exact (unread_http cfg h x).handleEvent ht hold hhandle hnew
      | ws y =>
          exact absurd (wsEvent_hub ht hhandle hnew) hold
    have hstream :
        bytesFor (.ws x) (received ++ arrivals w (.ready fd events input sends)) = [] := by
      rw [bytesFor_append, hnothing, hmore, List.append_nil]
    refine ⟨fun _ => ⟨hheard.trans hsilent, hstream⟩, ?_⟩
    rw [hstream]
    exact textsHeard_nil (hheard.trans hsilent) hunread
  · refine hx.still hmore hheard haside.wsAllocated fun hx' => ?_
    have hmem : x ∈ w.hub := by
      by_contra hold
      exact hborn ⟨hold, hx'⟩
    have hconn := haside.wss x hne (ho.hub_allocated hmem)
    exact ⟨hmem, congrArg Buffer.readable hconn.1⟩

theorem Attends.step
    (hx : Attends x received w) (ho : Orderly w) (hr : Registry w.sessions)
    (hactive : x ∈ w.hub → (w.wss x).state = .ACTIVE) (hok : step cfg w e = .ok w') :
    Attends x (received ++ arrivals w e) w' := by
  cases e with
  | clock | files =>
      cases hok
      exact hx.still rfl rfl le_rfl fun hx' => ⟨hx', rfl⟩
  | accept fd =>
      rw [Web.step] at hok
      split at hok
      · cases hok
        exact hx.still rfl rfl le_rfl fun hx' => ⟨hx', rfl⟩
      · have hacc := onAccept_accepted hok
        refine hx.still rfl (by rw [hacc.trace]) hacc.wsAllocated.ge fun hx' => ?_
        rw [(onAccept_room hok).2] at hx'
        exact ⟨hx', by rw [hacc.wss]⟩
  | ready fd events input sends =>
      cases ht : w.reactor.contexts fd with
      | none =>
          rw [Web.step, handleEvent, ht] at hok
          cases hok
          rw [arrivals_unregistered ht]
          exact hx.still rfl rfl le_rfl fun hx' => ⟨hx', rfl⟩
      | some t =>
          by_cases hown : t = .ws x
          · subst hown
            have hmem : x ∈ w.hub := ((hr.ws fd x).mp ht).1
            have hlt := ho.hub_allocated hmem
            have hgrows := (step_grows hok).2.2
            refine ⟨fun hnew => absurd (hgrows.trans hnew) (Nat.not_le.mpr hlt), ?_⟩
            rw [bytesFor_append]
            exact hx.texts.event hmem (hactive hmem) ht hok
          · exact hx.aside ho ht hown hok

end Steps

/-- What has been said on a socket: the name, the room and the content. -/
def saidOn (socket : SocketId) (history : List Obs) : List (String × String × String) :=
  history.filterMap fun
    | .message m (.frame s) _ =>
        if s = socket then some (m.from_, m.room, m.content) else none
    | _ => none

/-- What a browser says with some texts under a name. -/
def speeches (J : JsonLib) (name : String) (texts : List Bytes) :
    List (String × String × String) :=
  (texts.filterMap (WsHub.chatOf J)).map fun chat => (name, chat)

/-- Each WebSocket connection is constructed for one socket, and a socket is handed over once,
under one name. -/
structure Adoptions (s : Sessions) : Prop where
  bound : ∀ x ∈ s.hub, .adopt (s.sockets (s.ws x).fd) x (s.ws x).username ∈ s.history
  constructed : ∀ x < s.wsAllocated, ∃ socket u, .adopt socket x u ∈ s.history
  known : ∀ socket x u, .adopt socket x u ∈ s.history → x < s.wsAllocated
  once : ∀ socket x u x' u', .adopt socket x u ∈ s.history →
    .adopt socket x' u' ∈ s.history → x' = x ∧ u' = u
  own : ∀ socket x u socket' u', .adopt socket x u ∈ s.history →
    .adopt socket' x u' ∈ s.history → socket' = socket

section Adoptions

variable {P : Sessions → WsId → Prop} {s s' : Sessions} {socket : SocketId}

@[simp] theorem saidOn_append
    (socket : SocketId) (past future : List Obs) :
    saidOn socket (past ++ future) = saidOn socket past ++ saidOn socket future := by
  exact List.filterMap_append

theorem saidOn_sessions
    (socket : SocketId) (w : World) :
    saidOn socket w.sessions.history = saidOn socket w.trace := by
  rw [saidOn, saidOn, World.sessions, List.filterMap_filter]
  congr 1
  funext o
  cases o <;> rfl

theorem mem_sessions
    {w : World} {x : WsId} {u : String} :
    .adopt socket x u ∈ w.sessions.history ↔ .adopt socket x u ∈ w.trace := by
  rw [World.sessions, List.mem_filter]
  exact and_iff_left rfl

/-- Nobody is adopted; the connections of the hub stay as they are, or leave it. -/
theorem Adoptions.same
    (ha : Adoptions s)
    (hbound : ∀ x ∈ s'.hub, x ∈ s.hub ∧
      s'.sockets (s'.ws x).fd = s.sockets (s.ws x).fd ∧ (s'.ws x).username = (s.ws x).username)
    (hws : s'.wsAllocated = s.wsAllocated)
    (hmem : ∀ socket x u, .adopt socket x u ∈ s'.history ↔ .adopt socket x u ∈ s.history) :
    Adoptions s' where
  bound x hx := by
    obtain ⟨hx, hsocket, hname⟩ := hbound x hx
    rw [hmem, hsocket, hname]
    exact ha.bound x hx
  constructed x hx := by
    simp only [hmem]
    exact ha.constructed x (hws ▸ hx)
  known socket x u h := by
    rw [hws]
    exact ha.known socket x u ((hmem _ _ _).mp h)
  once socket x u x' u' h h' :=
    ha.once socket x u x' u' ((hmem _ _ _).mp h) ((hmem _ _ _).mp h')
  own socket x u socket' u' h h' :=
    ha.own socket x u socket' u' ((hmem _ _ _).mp h) ((hmem _ _ _).mp h')

/-- A socket is handed over that has not been handed over before. -/
theorem Adoptions.handOver
    (ha : Adoptions s) (hn : Numbered s) {fd : Fd} {h : HttpId}
    (hregistered : s.contexts fd = some (.http h)) :
    Adoptions (s.handOver h) := by
  have hfd : (s.http h).fd = fd := (hn.connections.registered fd _ hregistered).1
  obtain ⟨hsocket, -, hnot⟩ := hn.http fd h hregistered
  have hmem {socket : SocketId} {x : WsId} {u : String} :
      .adopt socket x u ∈ (s.handOver h).history ↔ .adopt socket x u ∈ s.history ∨
        socket = h ∧ x = s.wsAllocated ∧ u = (s.http h).upgradedUser := by
    simp [Sessions.handOver, hfd, hsocket]
  have hfresh {x : WsId} {u : String} (hold : .adopt h x u ∈ s.history) : False :=
    hnot ⟨.adopt h x u, hold, by simp [Obs.passesOn]⟩
  refine ⟨?_, ?_, ?_, ?_, ?_⟩
  · intro x hx
    have hx : x ∈ s.hub.insert s.wsAllocated := hx
    rw [hmem]
    show .adopt (s.sockets (Function.update s.ws s.wsAllocated _ x).fd) x
        (Function.update s.ws s.wsAllocated _ x).username ∈ s.history ∨
      s.sockets (Function.update s.ws s.wsAllocated _ x).fd = h ∧ x = s.wsAllocated ∧
        (Function.update s.ws s.wsAllocated _ x).username = (s.http h).upgradedUser
    rcases eq_or_ne x s.wsAllocated with rfl | hne
    · rw [Function.update_self]
      exact .inr ⟨by rw [hfd, hsocket], rfl, rfl⟩
    · rw [Function.update_of_ne hne]
      exact .inl (ha.bound x ((UnorderedSet.mem_insert.mp hx).resolve_left hne))
  · intro x hx
    simp only [hmem]
    rcases Nat.lt_succ_iff_lt_or_eq.mp hx with hlt | rfl
    · obtain ⟨socket, u, hold⟩ := ha.constructed x hlt
      exact ⟨socket, u, .inl hold⟩
    · exact ⟨h, _, .inr ⟨rfl, rfl, rfl⟩⟩
  · intro socket x u hadopt
    show x < s.wsAllocated + 1
    rcases hmem.mp hadopt with hold | ⟨-, rfl, -⟩
    · exact Nat.lt_succ_of_lt (ha.known socket x u hold)
    · exact Nat.lt_succ_self _
  · intro socket x u x' u' hadopt hadopt'
    rcases hmem.mp hadopt with hold | ⟨rfl, rfl, rfl⟩
    · rcases hmem.mp hadopt' with hold' | ⟨rfl, -, -⟩
      · exact ha.once socket x u x' u' hold hold'
      · exact (hfresh hold).elim
    · rcases hmem.mp hadopt' with hold' | ⟨-, rfl, rfl⟩
      · exact (hfresh hold').elim
      · exact ⟨rfl, rfl⟩
  · intro socket x u socket' u' hadopt hadopt'
    rcases hmem.mp hadopt with hold | ⟨rfl, rfl, rfl⟩
    · rcases hmem.mp hadopt' with hold' | ⟨-, rfl, -⟩
      · exact ha.own socket x u socket' u' hold hold'
      · exact absurd (ha.known _ _ _ hold) (Nat.lt_irrefl _)
    · rcases hmem.mp hadopt' with hold' | ⟨rfl, -, -⟩
      · exact absurd (ha.known _ _ _ hold') (Nat.lt_irrefl _)
      · rfl

theorem adoptions_act
    (hact : Act P s s') (hn : Numbered s) (hr : Registry s) (ha : Adoptions s) :
    Adoptions s' := by
  cases hact with
  | talk htalk =>
      cases htalk with
      | login u | logout tok | post tok m | speak fd x m | upgrade fd h tok =>
          exact ha.same (fun x hx => ⟨hx, rfl, rfl⟩) rfl fun _ _ _ => by
            simp [Sessions.login, Sessions.logout, Sessions.say, Sessions.upgrade]
  | forget fd h hregistered | closeHttp fd h hregistered =>
      exact ha.same (fun x hx => ⟨hx, rfl, rfl⟩) rfl fun _ _ _ => .rfl
  | handOver fd h hregistered hupgraded =>
      exact ha.handOver hn hregistered
  | closeWs fd y hregistered =>
      refine ha.same (fun x hx => ?_) rfl fun _ _ _ => .rfl
      have hx : x ∈ s.hub.erase y := hx
      obtain ⟨hne, hx⟩ := UnorderedSet.mem_erase.mp hx
      refine ⟨hx, ?_⟩
      simp [Sessions.closeWs, hne]
  | accept fd hclosed =>
      refine ha.same (fun x hx => ⟨hx, ?_, rfl⟩) rfl fun _ _ _ => .rfl
      have hcontext := (hr.ws (s.ws x).fd x).mpr ⟨hx, rfl⟩
      have hopen := (hr.registered _ _ hcontext).2.2
      refine Function.update_of_ne ?_ _ _
      rintro hfd
      have hopen : s.openFds (s.ws x).fd = true := hopen
      have hfd : (s.ws x).fd = fd := hfd
      rw [hfd, hclosed] at hopen
      cases hopen

/-- Nothing is said on a socket when no browser speaks. -/
theorem saidOn_act
    (hact : Act (fun _ _ => False) s s') :
    saidOn socket s'.history = saidOn socket s.history := by
  cases hact with
  | talk htalk =>
      cases htalk with
      | login u | logout tok | post tok m | upgrade fd h tok =>
          simp [Sessions.login, Sessions.logout, Sessions.say, Sessions.upgrade, saidOn]
      | speak fd x m hregistered hfrom hallowed =>
          exact hallowed.elim
  | forget | closeHttp | closeWs | accept =>
      rfl
  | handOver fd h hregistered hupgraded =>
      simp [Sessions.handOver, Sessions.forget, saidOn]

end Adoptions

/-- What a connection has said since the state `w₀`: the chats among the texts handed over
since then, on its own socket and on no other. -/
structure Speech (J : JsonLib) (y : WsId) (socket : SocketId) (w₀ w : World) : Prop where
  fd : (w.wss y).fd = (w₀.wss y).fd
  username : (w.wss y).username = (w₀.wss y).username
  sockets : w.sockets = w₀.sockets
  said : ∃ texts, heard y w.trace = heard y w₀.trace ++ texts ∧
    saidOn socket w.trace = saidOn socket w₀.trace ++
      if w₀.sockets (w₀.wss y).fd = socket then speeches J (w₀.wss y).username texts else []

section Speech

variable {J : JsonLib} {y : WsId} {socket : SocketId} {w₀ w w' : World}

theorem Speech.refl
    (J : JsonLib) (y : WsId) (socket : SocketId) (w : World) :
    Speech J y socket w w where
  fd := rfl
  username := rfl
  sockets := rfl
  said := ⟨[], by simp, by simp [speeches]⟩

/-- Nothing is handed over and nothing is said. -/
theorem Speech.same
    (hw : Speech J y socket w₀ w) (hfd : (w'.wss y).fd = (w.wss y).fd)
    (husername : (w'.wss y).username = (w.wss y).username) (hsockets : w'.sockets = w.sockets)
    (hheard : heard y w'.trace = heard y w.trace)
    (hsaid : saidOn socket w'.trace = saidOn socket w.trace) :
    Speech J y socket w₀ w' where
  fd := hfd.trans hw.fd
  username := husername.trans hw.username
  sockets := hsockets.trans hw.sockets
  said := by
    rw [hheard, hsaid]
    exact hw.said

theorem Speech.queue
    (hw : Speech J y socket w₀ w) (frame : Bytes) :
    Speech J y socket w₀ (WsConnection.queue w y frame) := by
  have hconn := WsConnection.wss_queue w y frame
  have htrace := WsConnection.trace_queue w y frame
  refine hw.same ?_ ?_ ?_ ?_ ?_
  · rw [hconn]
  · rw [hconn]
  · unfold WsConnection.queue
    dsimp only
    split <;> rfl
  · rw [htrace]
  · rw [htrace]

theorem Speech.close
    (hw : Speech J y socket w₀ w) :
    Speech J y socket w₀ (WsConnection.close (WsHub.callbacks J) w y) := by
  obtain ⟨hconn, htrace, hsockets⟩ := WsConnection.close_hub J w y
  refine hw.same ?_ ?_ hsockets ?_ ?_
  · rw [hconn]
  · rw [hconn]
  · rw [htrace]
  · rw [htrace]

/-- The text handler says at most what is in the text. -/
theorem onText_says
    (J : JsonLib) (w : World) (y : WsId) (payload : Bytes) (socket : SocketId) :
    ((WsHub.onText J w y payload).wss y).core = (w.wss y).core ∧
      (WsHub.onText J w y payload).sockets = w.sockets ∧
        saidOn socket (WsHub.onText J w y payload).trace = saidOn socket w.trace ++
          if w.sockets (w.wss y).fd = socket then speeches J (w.wss y).username [payload]
          else [] := by
  unfold WsHub.onText
  cases hchat : WsHub.chatOf J payload with
  | none =>
      refine ⟨rfl, rfl, ?_⟩
      simp [speeches, hchat]
  | some chat =>
      obtain ⟨room, content⟩ := chat
      dsimp only
      have hsessions := sessions_addMessage (w := w) J
        { from_ := (w.wss y).username, room := room, content := content, time := w.now }
        (.frame (w.sockets (w.wss y).fd))
      refine ⟨congrArg (fun s : Sessions => s.ws y) hsessions,
        congrArg Sessions.sockets hsessions, ?_⟩
      rw [← saidOn_sessions, ← saidOn_sessions, hsessions, Sessions.say, saidOn_append]
      by_cases hown : w.sockets (w.wss y).fd = socket
      · simp [saidOn, speeches, hchat, hown]
      · simp [saidOn, hown]

theorem speeches_append
    (J : JsonLib) (name : String) (texts more : List Bytes) :
    speeches J name (texts ++ more) = speeches J name texts ++ speeches J name more := by
  simp [speeches]

/-- A text is handed over, and said if it is a chat message. -/
theorem Speech.text
    (hw : Speech J y socket w₀ w) (payload : Bytes) :
    Speech J y socket w₀ (WsHub.onText J (w.note (.text y payload)) y payload) := by
  obtain ⟨hcore, hsockets, hchats⟩ :=
    onText_says J (w.note (.text y payload)) y payload socket
  have hheard := (WsConnection.onText_appends J (w.note (.text y payload)) y y payload).heard
  have hnoted : saidOn socket (w.note (.text y payload)).trace = saidOn socket w.trace := by
    simp [World.note, saidOn]
  have hsame : (w.note (.text y payload)).sockets ((w.note (.text y payload)).wss y).fd =
      w₀.sockets (w₀.wss y).fd := by
    rw [← hw.sockets, ← hw.fd]
    rfl
  have hname : ((w.note (.text y payload)).wss y).username = (w₀.wss y).username :=
    hw.username
  obtain ⟨texts, htexts, hsaid⟩ := hw.said
  refine ⟨(congrArg WsCore.fd hcore).trans hw.fd, (congrArg WsCore.username hcore).trans hname,
    hsockets.trans hw.sockets, texts ++ [payload], ?_, ?_⟩
  · rw [hheard, heard_note_text, htexts, List.append_assoc]
  · rw [hchats, hnoted, hsame, hname, hsaid, List.append_assoc]
    congr 1
    split
    · rw [speeches_append]
    · rfl

/-- What the operations on a connection make it say. -/
theorem speech_ws
    (J : JsonLib) (y : WsId) (socket : SocketId) (w₀ : World) :
    WsRule J y (Speech J y socket w₀) where
  receive w readBuf hw :=
    hw.same (by simp [World.setWs]) (by simp [World.setWs]) rfl rfl rfl
  dispatch w f _ hw := by
    unfold WsConnection.dispatch
    split
    · exact hw.text f.payload
    · exact hw.queue _
    · exact hw
    · exact hw.close
    · have hset : Speech J y socket w₀ (w.setWs y { w.wss y with closeAfterWrite := true }) :=
        hw.same (by simp [World.setWs]) (by simp [World.setWs]) rfl rfl rfl
      exact hset.queue _
    · exact hw.close
  wrote w n hw := by
    refine hw.same ?_ ?_ rfl ?_ ?_
    · simp [WsConnection.wrote, World.setWs, World.note]
    · simp [WsConnection.wrote, World.setWs, World.note]
    · simp [WsConnection.wrote, World.setWs, World.note, heard]
    · simp [WsConnection.wrote, World.setWs, World.note, saidOn]
  flushed w hw := hw.same (by simp [World.setWs]) (by simp [World.setWs]) rfl rfl rfl
  close w hw := hw.close

end Speech

/-- What has been said on a socket is the chats among the texts of the connection that has
been constructed for it. -/
structure Sayings (J : JsonLib) (w : World) : Prop where
  silent : ∀ socket, (∀ x u, .adopt socket x u ∉ w.trace) → saidOn socket w.trace = []
  unheard : ∀ x, w.wsAllocated ≤ x → heard x w.trace = []
  spoken : ∀ socket x u, .adopt socket x u ∈ w.trace →
    saidOn socket w.trace = speeches J u (heard x w.trace)

/-- The bytes that a WebSocket connection receives in a run. -/
def browserBytes (cfg : Config) (events : List Event) (x : WsId) : Bytes :=
  bytesFor (.ws x) (outputs arrivals (step cfg) World.init events)

section Runs

variable {cfg : Config} {events : List Event} {socket : SocketId} {x : WsId} {u : String}
  {w w' : World} {e : Event}

/-- Nothing is handed over and nothing is said.  Who is adopted has not been heard. -/
theorem Sayings.aside
    (hs : Sayings cfg.json w) (ha : Adoptions w.sessions) (ha' : Adoptions w'.sessions)
    (hgrows : ∀ o ∈ w.trace, o ∈ w'.trace) (hws : w.wsAllocated ≤ w'.wsAllocated)
    (hheard : ∀ x, heard x w'.trace = heard x w.trace)
    (hsaid : ∀ socket, saidOn socket w'.trace = saidOn socket w.trace) :
    Sayings cfg.json w' where
  silent socket hnot := by
    rw [hsaid]
    exact hs.silent socket fun x u h => hnot x u (hgrows _ h)
  unheard x hx := by
    rw [hheard]
    exact hs.unheard x (hws.trans hx)
  spoken socket x u hadopt := by
    rw [hsaid, hheard]
    by_cases hold : .adopt socket x u ∈ w.trace
    · exact hs.spoken socket x u hold
    · have hother (x' : WsId) (u' : String) : .adopt socket x' u' ∉ w.trace := by
        intro h
        obtain ⟨rfl, rfl⟩ := ha'.once socket x u x' u' (mem_sessions.mpr hadopt)
          (mem_sessions.mpr (hgrows _ h))
        exact hold h
      have hnew : w.wsAllocated ≤ x := by
        by_contra hlt
        obtain ⟨socket', u', h⟩ := ha.constructed x (Nat.not_le.mp hlt)
        have h := mem_sessions.mp h
        obtain rfl := ha'.own socket x u socket' u' (mem_sessions.mpr hadopt)
          (mem_sessions.mpr (hgrows _ h))
        exact hother x u' h
      rw [hs.silent socket hother, hs.unheard x hnew]
      rfl

/-- An event of a WebSocket connection. -/
theorem Sayings.event
    (hs : Sayings cfg.json w) (ho : Orderly w) (ha : Adoptions w.sessions) {y : WsId}
    (hy : y ∈ w.hub) {fd : Fd} {events : Ready} {input : Input} {sends : List SendResult}
    (ht : w.reactor.contexts fd = some (.ws y))
    (hok : handleEvent cfg w fd events input sends = .ok w') :
    Sayings cfg.json w' := by
  have haside := handleEvent_aside ht hok
  have hspeech (socket : SocketId) : Speech cfg.json y socket w w' :=
    (speech_ws cfg.json y socket w).handleEvent ht (.refl cfg.json y socket w) hok
  have hbound : .adopt (w.sockets (w.wss y).fd) y (w.wss y).username ∈ w.sessions.history :=
    ha.bound y hy
  have hgrows {o : Obs} (h : o ∈ w.trace) : o ∈ w'.trace := by
    obtain ⟨more, htrace, -⟩ := haside.history
    rw [htrace]
    exact List.mem_append_left _ h
  have hadopted {socket : SocketId} {x : WsId} {u : String}
      (h : .adopt socket x u ∈ w'.trace) : .adopt socket x u ∈ w.sessions.history :=
    mem_sessions.mpr (haside.adopted (.inr fun h => by simp) h)
  have hother {socket : SocketId} (hne : w.sockets (w.wss y).fd ≠ socket) :
      saidOn socket w'.trace = saidOn socket w.trace := by
    obtain ⟨texts, -, hsaid⟩ := (hspeech socket).said
    rw [hsaid, if_neg hne, List.append_nil]
  refine ⟨?_, ?_, ?_⟩
  · intro socket hnot
    have hne : w.sockets (w.wss y).fd ≠ socket := by
      rintro rfl
      exact hnot _ _ (hgrows (mem_sessions.mp hbound))
    rw [hother hne]
    exact hs.silent socket fun x u h => hnot x u (hgrows h)
  · intro x hx
    have hold := haside.wsAllocated.trans hx
    have hne : Target.ws y ≠ .ws x := by
      rintro ⟨⟩
      exact absurd hold (Nat.not_le.mpr (ho.hub_allocated hy))
    rw [haside.heard hne]
    exact hs.unheard x hold
  · intro socket x u hadopt
    have hadopt := hadopted hadopt
    by_cases hxy : x = y
    · subst hxy
      obtain rfl := ha.own _ _ _ _ _ hbound hadopt
      obtain ⟨-, rfl⟩ := ha.once _ _ _ _ _ hbound hadopt
      obtain ⟨texts, htexts, hsaid⟩ := (hspeech (w.sockets (w.wss x).fd)).said
      rw [hsaid, if_pos rfl, htexts, hs.spoken _ _ _ (mem_sessions.mp hadopt), speeches_append]
    · have hne : w.sockets (w.wss y).fd ≠ socket := by
        rintro rfl
        exact hxy (ha.once _ _ _ _ _ hbound hadopt).1
      have hne' : Target.ws y ≠ .ws x := by
        rintro ⟨⟩
        exact hxy rfl
      rw [hother hne, haside.heard hne']
      exact hs.spoken _ _ _ (mem_sessions.mp hadopt)

/-- What the connections of the hub are, and what has been said on them. -/
structure Speaking (J : JsonLib) (w : World) : Prop where
  orderly : Orderly w
  numbered : Numbered w.sessions
  registry : Registry w.sessions
  adoptions : Adoptions w.sessions
  sayings : Sayings J w

theorem Speaking.step
    (hw : Speaking cfg.json w) (hok : step cfg w e = .ok w') :
    Speaking cfg.json w' := by
  have hacts : Acts (fun _ _ => True) w.sessions w'.sessions :=
    step_acts (fun _ _ _ _ h => h) (fun _ _ => trivial) hok
  obtain ⟨hn', hr', ha'⟩ : Numbered w'.sessions ∧ Registry w'.sessions ∧
      Adoptions w'.sessions := by
    refine Acts.keeps (I := fun s => Numbered s ∧ Registry s ∧ Adoptions s) ?_ hacts
      ⟨hw.numbered, hw.registry, hw.adoptions⟩
    rintro s s' hact ⟨hn, hr, ha⟩
    exact ⟨numbered_act hact hn, registry_act hact hr, adoptions_act hact hn hr ha⟩
  refine ⟨hw.orderly.step hok, hn', hr', ha', ?_⟩
  cases step_cases hok with
  | idle now files =>
      exact hw.sayings.aside hw.adoptions ha' (fun _ h => h) le_rfl (fun _ => rfl) fun _ => rfl
  | accept hnew haccept =>
      have hacc := onAccept_accepted haccept
      refine hw.sayings.aside hw.adoptions ha' ?_ hacc.wsAllocated.ge ?_ ?_
      · rw [hacc.trace]
        exact fun _ h => h
      · rw [hacc.trace]
        exact fun _ => rfl
      · rw [hacc.trace]
        exact fun _ => rfl
  | @handle fd events input sends t _ ht hhandle =>
      cases t with
      | ws y =>
          have hy : y ∈ w.hub := ((hw.registry.ws fd y).mp ht).1
          exact hw.sayings.event hw.orderly hw.adoptions hy ht hhandle
      | http h =>
          have haside := handleEvent_aside ht hhandle
          obtain ⟨more, htrace, -⟩ := haside.history
          refine hw.sayings.aside hw.adoptions ha' ?_ haside.wsAllocated ?_ ?_
          · intro o ho
            rw [htrace]
            exact List.mem_append_left _ ho
          · exact fun x => haside.heard (by simp)
          · intro socket
            have hsilent : Acts (fun _ _ => False) w.sessions w'.sessions :=
              ((acts_http cfg fd h w.sessions).handleEvent ht ⟨.refl, ht⟩ hhandle).1
            rw [← saidOn_sessions, ← saidOn_sessions]
            exact Acts.keeps
              (I := fun s => saidOn socket s.history = saidOn socket w.sessions.history)
              (fun _ _ hact hs => (saidOn_act hact).trans hs) hsilent rfl

theorem speaking_init
    (J : JsonLib) :
    Speaking J World.init where
  orderly := orderly_init
  numbered := numbered_init
  registry := registry_init
  adoptions :=
    { bound := fun x hx => absurd hx (UnorderedSet.not_mem_empty x)
      constructed := fun x hx => absurd hx (Nat.not_lt_zero x)
      known := fun _ _ _ h => absurd h List.not_mem_nil
      once := fun _ _ _ _ _ h => absurd h List.not_mem_nil
      own := fun _ _ _ _ _ h => absurd h List.not_mem_nil }
  sayings :=
    { silent := fun _ _ => rfl
      unheard := fun _ _ => rfl
      spoken := fun _ _ _ h => absurd h List.not_mem_nil }

/-- In every run, consider a WebSocket connection that has been constructed for a socket under
a name.  What has been said on the socket is the chats among the texts handed over, under that
name.  These are a front of the texts in the bytes that the connection has received, whatever
the other connections do in between; while it is in the hub they are all of them, and no frame
was unsupported. -/
theorem browsers_heard
    (hrun : runServer cfg events = .ok w) (hadopt : .adopt socket x u ∈ w.trace)
    (hsmall : (browserBytes cfg events x).length < 2 ^ 31) :
    saidOn socket w.trace = speeches cfg.json u (heard x w.trace) ∧
      heard x w.trace <+:
        WsConnection.textPayloads (frameDecoder.drain (browserBytes cfg events x)).items ∧
      (x ∈ w.hub →
        (∀ f ∈ (frameDecoder.drain (browserBytes cfg events x)).items,
          WsConnection.goesOn f = true) ∧
          heard x w.trace =
            WsConnection.textPayloads (frameDecoder.drain (browserBytes cfg events x)).items) := by
  have hkeeps : ∀ received w₁ e w₂, Speaking cfg.json w₁ ∧ Attends x received w₁ →
      step cfg w₁ e = .ok w₂ →
        Speaking cfg.json w₂ ∧ Attends x (received ++ arrivals w₁ e) w₂ := by
    rintro received w₁ e w₂ ⟨hw, hx⟩ hok
    exact ⟨hw.step hok, hx.step hw.orderly hw.registry hw.orderly.hub_active hok⟩
  have hstart : Attends x [] World.init :=
    ⟨fun _ => ⟨rfl, rfl⟩, textsHeard_nil rfl rfl⟩
  obtain ⟨hw, hx⟩ := outputs_invariant
    (I := fun received w => Speaking cfg.json w ∧ Attends x received w)
    hkeeps ⟨speaking_init cfg.json, hstart⟩ hrun
  obtain ⟨hfront, hall⟩ := hx.texts hsmall
  refine ⟨hw.sayings.spoken socket x u hadopt, hfront, fun hmem => ?_⟩
  obtain ⟨hgo, htexts, -⟩ := hall hmem
  exact ⟨hgo, htexts⟩

/-- The socket, the connection and the name of an adoption. -/
def Obs.adoption? : Obs → Option (SocketId × WsId × String)
  | .adopt socket x u => some (socket, x, u)
  | _ => none

/-- Two browsers speak, the first one twice. -/
theorem browsers_heard_twoListenersRun :
    ∃ w u, runServer sampleConfig twoListenersRun = .ok w ∧
      (browserBytes sampleConfig twoListenersRun 0).length < 2 ^ 31 ∧
        saidOn 1 w.trace = [(u, "lobby", "hi"), (u, "lobby", "hi")] ∧
          saidOn 1 w.trace = speeches sampleConfig.json u (heard 0 w.trace) := by
  obtain ⟨w, hrun, hw⟩ := exists_ok_of_any (runServer sampleConfig twoListenersRun)
    (fun w => some (1, 0, "a") ∈ w.trace.map Obs.adoption? ∧
      saidOn 1 w.trace = [("a", "lobby", "hi"), ("a", "lobby", "hi")])
    (by decide +kernel)
  obtain ⟨hadopted, hsaid⟩ := of_decide_eq_true hw
  have hadopt : .adopt 1 0 "a" ∈ w.trace := by
    obtain ⟨o, ho, hadoption⟩ := List.mem_map.mp hadopted
    cases o with
    | adopt socket x u =>
        obtain ⟨rfl, rfl, rfl⟩ : socket = 1 ∧ x = 0 ∧ u = "a" := by
          simpa [Obs.adoption?] using hadoption
        exact ho
    | login | logout | message | upgrade | response | text | wrote =>
        cases hadoption
  have hsmall : (browserBytes sampleConfig twoListenersRun 0).length < 2 ^ 31 := by
    decide +kernel
  exact ⟨w, "a", hrun, hsmall, hsaid, (browsers_heard hrun hadopt hsmall).1⟩

end Runs

end Web
end ChatRoom
