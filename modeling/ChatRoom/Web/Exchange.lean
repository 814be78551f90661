import ChatRoom.Web.CallRule
import ChatRoom.Web.HandOver
import ChatRoom.Web.PlainResponses
import ChatRoom.Web.UpgradeStream

/-!
# Exchanges on an HTTP connection

Clients send one request behind the other and do not wait for the responses.  The
requests of a connection are handled in the order in which their bytes arrive, each gets
one response, and the responses leave in the same order, so a client knows which response
belongs to which request (`exchanges_in_order`).

When a connection is handed over, what follows on its socket comes from a WebSocket
connection; `sentBefore` is what has been sent until then.
-/

namespace ChatRoom
namespace Web

open Http Socket Runs Incremental

/-- The entry passes a socket on to a WebSocket connection. -/
def Obs.passesOn (socket : SocketId) : Obs → Bool
  | .adopt s _ _ => s = socket
  | _ => false

/-- The socket has been passed on. -/
def PassedOn (socket : SocketId) (history : List Obs) : Prop :=
  ∃ o ∈ history, o.passesOn socket = true

/-- What has been sent on a socket until it was passed on. -/
def sentBefore (socket : SocketId) (history : List Obs) : Bytes :=
  sentOn socket (history.takeWhile fun o => !o.passesOn socket)

/-- The calls of a connection. -/
def callsTo (h : HttpId) (calls : List RequestCall) : List RequestCall :=
  calls.filter fun c => c.conn = h

/-- The requests of a connection that have been handled. -/
def requestsTo (h : HttpId) (calls : List RequestCall) : List HttpRequest :=
  (callsTo h calls).map RequestCall.req

/-- The call is answered with this response. -/
def RequestCall.AnsweredBy (cfg : Config) (c : RequestCall) (resp : HttpResponse) : Prop :=
  ∃ w', HttpServer.dispatch cfg c.world c.conn c.req = .ok w' ∧
    responsesTo c.conn w'.trace = responsesTo c.conn c.world.trace ++ [resp]

section Histories

variable {socket : SocketId} {h : HttpId} {past more : List Obs}

theorem PassedOn.append
    (hpast : PassedOn socket past) (more : List Obs) :
    PassedOn socket (past ++ more) := by
  obtain ⟨o, ho, hpasses⟩ := hpast
  exact ⟨o, List.mem_append_left more ho, hpasses⟩

theorem takeWhile_kept
    (hpast : ¬ PassedOn socket past) :
    (past.takeWhile fun o => !o.passesOn socket) = past := by
  rw [List.takeWhile_eq_self_iff]
  intro o ho
  have hnot : ¬ o.passesOn socket = true := fun hpasses => hpast ⟨o, ho, hpasses⟩
  simpa using hnot

/-- Until the socket is handed over, it is everything that has been sent. -/
theorem sentBefore_kept
    (hpast : ¬ PassedOn socket past) :
    sentBefore socket past = sentOn socket past := by
  rw [sentBefore, takeWhile_kept hpast]

theorem sentBefore_front
    (socket : SocketId) (history : List Obs) :
    sentBefore socket history <+: sentOn socket history := by
  obtain ⟨rest, hrest⟩ : (history.takeWhile fun o => !o.passesOn socket) <+: history :=
    List.takeWhile_prefix _
  refine ⟨sentOn socket rest, ?_⟩
  rw [sentBefore, ← sentOn_append, hrest]

/-- From then on nothing is added. -/
theorem sentBefore_append_passedOn
    (hpast : PassedOn socket past) (more : List Obs) :
    sentBefore socket (past ++ more) = sentBefore socket past := by
  obtain ⟨o, ho, hpasses⟩ := hpast
  have hshort : ¬ (past.takeWhile fun o => !o.passesOn socket).length = past.length := by
    intro hlength
    have hself := List.takeWhile_eq_self_iff.mp
      ((List.takeWhile_prefix _).eq_of_length hlength) o ho
    simp [hpasses] at hself
  rw [sentBefore, List.takeWhile_append, if_neg hshort, sentBefore]

/-- The socket is passed on. -/
theorem sentBefore_passOn
    (hpast : ¬ PassedOn socket past) (x : WsId) (u : String) :
    sentBefore socket (past ++ [.adopt socket x u]) = sentOn socket past := by
  rw [sentBefore, List.takeWhile_append, takeWhile_kept hpast, if_pos rfl, sentOn_append]
  simp [Obs.passesOn, sentOn]

/-- Entries that send nothing on the socket. -/
theorem sentBefore_append_silent
    (hmore : sentOn socket more = []) (hpasses : ¬ PassedOn socket more) :
    sentBefore socket (past ++ more) = sentBefore socket past := by
  by_cases hpast : PassedOn socket past
  · exact sentBefore_append_passedOn hpast more
  · have hboth : ¬ PassedOn socket (past ++ more) := by
      rintro ⟨o, ho, hpasses'⟩
      rcases List.mem_append.mp ho with ho | ho
      · exact hpast ⟨o, ho, hpasses'⟩
      · exact hpasses ⟨o, ho, hpasses'⟩
    rw [sentBefore_kept hboth, sentBefore_kept hpast, sentOn_append, hmore,
      List.append_nil]

theorem answered_eq
    (h : HttpId) (history : List Obs) :
    answered h history = (responsesTo h history).flatMap HttpResponse.toString := by
  induction history with
  | nil =>
      rfl
  | cons o history ih =>
      rw [← List.singleton_append, answered_append, responsesTo_append, List.flatMap_append, ih]
      congr 1
      cases o with
      | response h' resp =>
          by_cases hh : h' = h
          · simp [answered, responsesTo, hh]
          · simp [answered, responsesTo, hh]
      | login | logout | message | upgrade | adopt | text | wrote =>
          rfl

theorem responsesTo_quiet
    (h : HttpId) (hmore : ∀ o ∈ more, o.Quiet) :
    responsesTo h more = [] := by
  rw [responsesTo, List.filterMap_eq_nil_iff]
  intro o ho
  have hquiet := hmore o ho
  cases o with
  | response =>
      cases hquiet
  | login | logout | message | upgrade | adopt | wrote | text =>
      rfl

theorem not_passedOn_quiet
    (hmore : ∀ o ∈ more, o.Quiet) :
    ¬ PassedOn socket more := by
  rintro ⟨o, ho, hpasses⟩
  have hquiet := hmore o ho
  cases o with
  | adopt =>
      cases hquiet
  | login | logout | message | upgrade | response | wrote | text =>
      cases hpasses

@[simp] theorem callsTo_append
    (h : HttpId) (calls calls' : List RequestCall) :
    callsTo h (calls ++ calls') = callsTo h calls ++ callsTo h calls' := by
  exact List.filter_append _ _

@[simp] theorem requestsTo_append
    (h : HttpId) (calls calls' : List RequestCall) :
    requestsTo h (calls ++ calls') = requestsTo h calls ++ requestsTo h calls' := by
  simp [requestsTo, callsTo]

end Histories

/-- What is known of a connection: each of its calls has been answered with a plain
response, and the responses are what has been sent and is waiting in the write buffer. -/
structure Exchanged (cfg : Config) (h : HttpId) (calls : List RequestCall) (w : World) :
    Prop where
  answers : List.Forall₂ (RequestCall.AnsweredBy cfg) (callsTo h calls) (responsesTo h w.trace)
  plain : ∀ resp ∈ responsesTo h w.trace, PlainResponse resp
  front : sentBefore h w.trace <+: answered h w.trace
  whole : ¬ PassedOn h w.trace →
    sentOn h w.trace ++ (w.https h).writeBuf.readable = answered h w.trace

section Operations

variable {cfg : Config} {h : HttpId} {calls : List RequestCall} {w w' : World}

/-- A request adds its response to the history and to the write buffer, and something that
has nothing to do with sending before that. -/
theorem dispatch_entries
    {req : HttpRequest} (hok : HttpServer.dispatch cfg w h req = .ok w') :
    ∃ more resp, w'.trace = w.trace ++ (more ++ [.response h resp]) ∧ (∀ o ∈ more, o.Quiet) ∧
      (w'.https h).writeBuf.readable = (w.https h).writeBuf.readable ++ resp.toString ∧
        (w'.https h).readBuf = (w.https h).readBuf := by
  obtain ⟨resp, w₁, heff, rfl⟩ := dispatch_handled hok
  have hentries : ∃ more, w₁.trace = w.trace ++ more ∧ ∀ o ∈ more, o.Quiet := by
    cases heff with
    | nothing =>
        exact ⟨[], by simp, by simp⟩
    | login u =>
        exact ⟨_, rfl, by simp [Obs.Quiet]⟩
    | logout =>
        exact ⟨_, rfl, by simp [Obs.Quiet]⟩
    | post m =>
        generalize Source.request (Routes.presentedToken cfg.json req) = source
        exact ⟨_, (addMessage_room cfg.json w m source).2, by simp [Obs.Quiet]⟩
    | upgrade tok =>
        exact ⟨_, rfl, by simp [Obs.Quiet]⟩
  obtain ⟨more, htrace, hquiet⟩ := hentries
  refine ⟨more, resp, ?_, hquiet, ?_, ?_⟩
  · rw [trace_send, htrace, List.append_assoc]
  · rw [https_send, Function.update_self]
    simp only [Buffer.readable_append, heff.output.1]
  · rw [https_send, Function.update_self]
    exact heff.input.1

/-- What the connection and the history do not see. -/
theorem Exchanged.unseen
    (hw : Exchanged cfg h calls w) (htrace : w'.trace = w.trace)
    (hbuf : (w'.https h).writeBuf = (w.https h).writeBuf) :
    Exchanged cfg h calls w' where
  answers := htrace ▸ hw.answers
  plain := htrace ▸ hw.plain
  front := htrace ▸ hw.front
  whole := by
    rw [htrace, hbuf]
    exact hw.whole

/-- A request is handled. -/
theorem Exchanged.request
    (hw : Exchanged cfg h calls w) {req : HttpRequest}
    (hok : HttpServer.dispatch cfg w h req = .ok w') :
    Exchanged cfg h (calls ++ [{ world := w, conn := h, req := req }]) w' := by
  obtain ⟨more, resp, htrace, hquiet, hbuf, -⟩ := dispatch_entries hok
  have hresponses : responsesTo h w'.trace = responsesTo h w.trace ++ [resp] := by
    rw [htrace, responsesTo_append, responsesTo_append, responsesTo_quiet h hquiet]
    simp [responsesTo]
  have hanswered : answered h w'.trace = answered h w.trace ++ resp.toString := by
    rw [answered_eq, answered_eq, hresponses]
    simp
  have hsent : sentOn h (more ++ [.response h resp]) = [] := by
    rw [sentOn_append, sentOn_quiet h hquiet]
    rfl
  have hplain : PlainResponse resp := by
    obtain ⟨past, resp', hlast, hresp', -⟩ := dispatch_plain hok
    rw [htrace, ← List.append_assoc] at hlast
    cases (List.append_inj' hlast rfl).2
    exact hresp'
  have hpasses : ¬ PassedOn h (more ++ [.response h resp]) := by
    rintro ⟨o, ho, hpasses⟩
    rcases List.mem_append.mp ho with ho | ho
    · exact not_passedOn_quiet hquiet ⟨o, ho, hpasses⟩
    · rw [List.mem_singleton.mp ho] at hpasses
      cases hpasses
  refine ⟨?_, ?_, ?_, ?_⟩
  · have hcall : callsTo h (calls ++ [{ world := w, conn := h, req := req }]) =
        callsTo h calls ++ [{ world := w, conn := h, req := req }] := by
      simp [callsTo]
    rw [hcall, hresponses]
    exact List.rel_append hw.answers (.cons ⟨w', hok, hresponses⟩ .nil)
  · rw [hresponses]
    intro r hr
    rcases List.mem_append.mp hr with hr | hr
    · exact hw.plain r hr
    · rw [List.mem_singleton.mp hr]
      exact hplain
  · rw [hanswered, htrace, sentBefore_append_silent hsent hpasses]
    exact hw.front.trans (List.prefix_append _ _)
  · intro hnot
    have hbefore : ¬ PassedOn h w.trace := by
      intro hpast
      rw [htrace] at hnot
      exact hnot (hpast.append _)
    rw [hanswered, ← hw.whole hbefore, htrace, sentOn_append, hsent, hbuf]
    simp

/-- Bytes move from the write buffer to the socket. -/
theorem Exchanged.wrote
    (hw : Exchanged cfg h calls w) (hsocket : w.sockets (w.https h).fd = h) (n : Nat) :
    Exchanged cfg h calls (HttpConnection.wrote w h n) := by
  have hconn : (HttpConnection.wrote w h n).https h =
      { w.https h with writeBuf := (w.https h).writeBuf.consume n } :=
    Function.update_self _ _ _
  have htrace : (HttpConnection.wrote w h n).trace =
      w.trace ++ [.wrote h ((w.https h).writeBuf.readable.take n)] := by
    rw [← hsocket]
    rw [HttpConnection.wrote]
    simp only [World.setHttp, World.note, hsocket]
  have hresponses : responsesTo h (HttpConnection.wrote w h n).trace = responsesTo h w.trace := by
    rw [htrace, responsesTo_append]
    exact List.append_nil _
  have hanswered : answered h (HttpConnection.wrote w h n).trace = answered h w.trace := by
    rw [answered_eq, answered_eq, hresponses]
  have hwhole (hbefore : ¬ PassedOn h w.trace) :
      sentOn h (HttpConnection.wrote w h n).trace ++
        ((HttpConnection.wrote w h n).https h).writeBuf.readable =
          answered h w.trace := by
    rw [htrace, hconn, sentOn_append, ← hw.whole hbefore]
    simp [sentOn]
  refine ⟨?_, ?_, ?_, ?_⟩
  · rw [hresponses]
    exact hw.answers
  · rw [hresponses]
    exact hw.plain
  · rw [hanswered]
    by_cases hpast : PassedOn h w.trace
    · rw [htrace, sentBefore_append_passedOn hpast]
      exact hw.front
    · have hnot : ¬ PassedOn h (HttpConnection.wrote w h n).trace := by
        rw [htrace]
        rintro ⟨o, ho, hpasses⟩
        rcases List.mem_append.mp ho with ho | ho
        · exact hpast ⟨o, ho, hpasses⟩
        · rw [List.mem_singleton.mp ho] at hpasses
          cases hpasses
      rw [sentBefore_kept hnot]
      exact ⟨_, hwhole hpast⟩
  · rw [hanswered]
    intro hnot
    apply hwhole
    intro hpast
    rw [htrace] at hnot
    exact hnot (hpast.append _)

/-- The connection is closed. -/
theorem Exchanged.close
    (hw : Exchanged cfg h calls w) (hsocket : w.sockets (w.https h).fd = h)
    (hok : HttpConnection.close (HttpServer.callbacks cfg) w h = .ok w') :
    Exchanged cfg h calls w' := by
  have hbuf : (w'.https h).writeBuf = (w.https h).writeBuf := by
    rw [httpClose_https hok]
  rcases httpClose_entry hok with hsame | ⟨-, -, htrace⟩
  · exact hw.unseen hsame hbuf
  · rw [hsocket] at htrace
    have hresponses : responsesTo h w'.trace = responsesTo h w.trace := by
      rw [htrace, responsesTo_append]
      exact List.append_nil _
    have hanswered : answered h w'.trace = answered h w.trace := by
      rw [answered_eq, answered_eq, hresponses]
    refine ⟨?_, ?_, ?_, ?_⟩
    · rw [hresponses]
      exact hw.answers
    · rw [hresponses]
      exact hw.plain
    · rw [hanswered, htrace]
      by_cases hpast : PassedOn h w.trace
      · rw [sentBefore_append_passedOn hpast]
        exact hw.front
      · rw [sentBefore_passOn hpast]
        exact ⟨_, hw.whole hpast⟩
    · intro hnot
      refine absurd ?_ hnot
      rw [htrace]
      exact ⟨_, List.mem_append_right _ (List.mem_singleton_self _), decide_eq_true rfl⟩

/-- The rule for the events of the connection. -/
theorem exchanged_http
    (cfg : Config) (h : HttpId) :
    CallRule cfg h
      (fun calls w => w.sockets (w.https h).fd = h ∧ Exchanged cfg h calls w)
      (fun calls w => w.sockets (w.https h).fd = h ∧ Exchanged cfg h calls w) where
  receive := by
    rintro calls w readBuf ⟨hsocket, hw⟩
    have hconn : (w.setHttp h { w.https h with readBuf := readBuf }).https h =
        { w.https h with readBuf := readBuf } := Function.update_self _ _ _
    refine ⟨?_, hw.unseen rfl (by rw [hconn])⟩
    rw [hconn]
    exact hsocket
  request := by
    rintro calls w req w' ⟨hsocket, hw⟩ hok
    have haside := aside_request hok
    refine ⟨?_, hw.request hok⟩
    rw [haside.sockets]
    exact (congrArg w.sockets haside.fdOf).trans hsocket
  turn calls w hw := hw
  wrote := by
    rintro calls w n ⟨hsocket, hw⟩
    have haside := aside_httpWrote w h n
    refine ⟨?_, hw.wrote hsocket n⟩
    rw [haside.sockets]
    exact (congrArg w.sockets haside.fdOf).trans hsocket
  flushed := by
    rintro calls w ⟨hsocket, hw⟩
    exact ⟨hsocket, hw.unseen rfl rfl⟩
  close := by
    rintro calls w w' ⟨hsocket, hw⟩ hok
    have haside := aside_httpClose hok
    refine ⟨?_, hw.close hsocket hok⟩
    rw [haside.sockets]
    exact (congrArg w.sockets haside.fdOf).trans hsocket

end Operations

/-- Sockets and HTTP connections are numbered alike.  A socket belongs to its HTTP
connection, which is open, until it is handed over. -/
structure Numbered (s : Sessions) : Prop where
  connections : ConnectionsKept s
  count : s.nextSocket = s.httpAllocated
  http : ∀ fd h, s.contexts fd = some (.http h) →
    s.sockets fd = h ∧ (s.http h).state ≠ .CLOSED ∧ ¬ PassedOn h s.history
  ws : ∀ fd x, s.contexts fd = some (.ws x) → PassedOn (s.sockets fd) s.history
  known : ∀ socket, s.nextSocket ≤ socket → ¬ PassedOn socket s.history

section Numbers

variable {P : Sessions → WsId → Prop} {s s' : Sessions}

theorem numbered_init :
    Numbered World.init.sessions where
  connections := connectionsKept_init
  count := rfl
  http fd h ht := by cases ht
  ws fd x ht := by cases ht
  known socket _ := by
    rintro ⟨o, ho, -⟩
    cases ho

/-- Entries that hand nothing over. -/
theorem passedOn_append_iff
    {socket : SocketId} {history : List Obs} {o : Obs} (ho : o.passesOn socket = false) :
    PassedOn socket (history ++ [o]) ↔ PassedOn socket history := by
  constructor
  · rintro ⟨o', ho', hpasses⟩
    rcases List.mem_append.mp ho' with ho' | ho'
    · exact ⟨o', ho', hpasses⟩
    · rw [List.mem_singleton.mp ho', ho] at hpasses
      cases hpasses
  · exact fun h => h.append _

/-- What is said, and who logs in, has nothing to do with the sockets. -/
theorem Numbered.of_history
    (hs : Numbered s) (hconnections : ConnectionsKept s') (hcount : s'.nextSocket = s.nextSocket)
    (hallocated : s'.httpAllocated = s.httpAllocated)
    (hcontexts : ∀ fd t, s'.contexts fd = some t → s.contexts fd = some t)
    (hsockets : s'.sockets = s.sockets)
    (hstate : ∀ fd h, s'.contexts fd = some (.http h) → (s'.http h).state = (s.http h).state)
    (hhistory : ∀ socket, PassedOn socket s'.history ↔ PassedOn socket s.history) :
    Numbered s' where
  connections := hconnections
  count := by rw [hcount, hallocated, hs.count]
  http fd h ht := by
    rw [hsockets, hstate fd h ht, hhistory]
    exact hs.http fd h (hcontexts fd _ ht)
  ws fd x ht := by
    rw [hsockets, hhistory]
    exact hs.ws fd x (hcontexts fd _ ht)
  known socket hle := by
    rw [hhistory]
    exact hs.known socket (hcount ▸ hle)

/-- A registered connection on another descriptor is another one. -/
theorem Numbered.other
    (hs : Numbered s) {fd fd' : Fd} {h h' : HttpId} (hfd : (s.http h).fd = fd) (hne : fd' ≠ fd)
    (ht : s.contexts fd' = some (.http h')) :
    h' ≠ h := by
  rintro rfl
  exact hne ((hs.connections.registered fd' _ ht).1.symm.trans hfd)

/-- A descriptor that is registered when another one has been removed. -/
theorem of_update_none
    {contexts : Fd → Option Target} {fd fd' : Fd} {t : Target}
    (ht : Function.update contexts fd none fd' = some t) :
    fd' ≠ fd ∧ contexts fd' = some t := by
  by_cases hfd : fd' = fd
  · rw [hfd, Function.update_self] at ht
    cases ht
  · rw [Function.update_of_ne hfd] at ht
    exact ⟨hfd, ht⟩

/-- A descriptor that is registered when one has been registered anew. -/
theorem of_update_some
    {contexts : Fd → Option Target} {fd fd' : Fd} {t t' : Target}
    (ht : Function.update contexts fd (some t') fd' = some t) :
    fd' = fd ∧ t = t' ∨ fd' ≠ fd ∧ contexts fd' = some t := by
  by_cases hfd : fd' = fd
  · rw [hfd, Function.update_self, Option.some.injEq] at ht
    exact .inl ⟨hfd, ht.symm⟩
  · rw [Function.update_of_ne hfd] at ht
    exact .inr ⟨hfd, ht⟩

/-- The socket of the connection is passed on, and it belongs to no other connection. -/
theorem Numbered.handOver
    (hs : Numbered s) {fd : Fd} {h : HttpId} (ht : s.contexts fd = some (.http h))
    (hup : (s.http h).upgraded = true) :
    Numbered (s.handOver h) := by
  obtain ⟨hfd, -, hopen⟩ := hs.connections.registered fd _ ht
  have hfd : (s.http h).fd = fd := hfd
  obtain ⟨hsocket, -, -⟩ := hs.http fd h ht
  have hhistory : (s.handOver h).history =
      s.history ++ [.adopt h s.wsAllocated (s.http h).upgradedUser] := by
    rw [Sessions.handOver, hfd, hsocket]
  have hregistered (fd' : Fd) (t : Target) (ht' : (s.handOver h).contexts fd' = some t) :
      fd' = fd ∧ t = .ws s.wsAllocated ∨ fd' ≠ fd ∧ s.contexts fd' = some t :=
    of_update_some (hfd ▸ ht')
  refine ⟨hs.connections.handOver ht hup, hs.count, ?_, ?_, ?_⟩
  · intro fd' h' ht'
    rcases hregistered fd' _ ht' with ⟨-, heq⟩ | ⟨hne, hold⟩
    · cases heq
    · have hne' := hs.other hfd hne hold
      obtain ⟨hsocket', hopen', hnot⟩ := hs.http fd' h' hold
      refine ⟨hsocket', ?_, ?_⟩
      · simpa [Sessions.handOver, Sessions.forget, hne'] using hopen'
      · rw [hhistory, passedOn_append_iff (by simp [Obs.passesOn, Ne.symm hne'])]
        exact hnot
  · intro fd' x ht'
    rw [hhistory]
    rcases hregistered fd' _ ht' with ⟨rfl, -⟩ | ⟨-, hold⟩
    · refine ⟨_, List.mem_append_right _ (List.mem_singleton_self _), ?_⟩
      exact decide_eq_true hsocket.symm
    · exact (hs.ws fd' x hold).append _
  · intro socket hle
    have hsmall : h < s.nextSocket := hsocket ▸ hs.connections.sockets fd hopen
    have hne : h ≠ socket := Nat.ne_of_lt (Nat.lt_of_lt_of_le hsmall hle)
    rw [hhistory, passedOn_append_iff (by simp [Obs.passesOn, hne])]
    exact hs.known socket hle

/-- A new socket gets the number of its connection. -/
theorem Numbered.accept
    (hs : Numbered s) {fd : Fd} (hclosed : s.openFds fd = false) :
    Numbered (s.accept fd) := by
  refine ⟨hs.connections.accept hclosed, congrArg (· + 1) hs.count, ?_, ?_, ?_⟩
  · intro fd' h' ht'
    rcases of_update_some ht' with ⟨rfl, heq⟩ | ⟨hfd, ht⟩
    · cases heq
      refine ⟨?_, ?_, hs.known _ (Nat.le_of_eq hs.count)⟩
      · exact (Function.update_self _ _ _).trans hs.count
      · simp [Sessions.accept]
    · have hlt : h' < s.httpAllocated := (hs.connections.registered fd' _ ht).2.1
      have hne : h' ≠ s.httpAllocated := Nat.ne_of_lt hlt
      obtain ⟨hsocket, hopen, hnot⟩ := hs.http fd' h' ht
      refine ⟨(Function.update_of_ne hfd _ _).trans hsocket, ?_, hnot⟩
      simpa [Sessions.accept, hne] using hopen
  · intro fd' x ht'
    rcases of_update_some ht' with ⟨-, heq⟩ | ⟨hfd, ht⟩
    · cases heq
    · rw [show (s.accept fd).sockets fd' = s.sockets fd' from Function.update_of_ne hfd _ _]
      exact hs.ws fd' x ht
  · exact fun socket hle => hs.known socket (Nat.le_of_succ_le hle)

theorem numbered_act
    (hact : Act P s s') (hs : Numbered s) :
    Numbered s' := by
  have hkept := connectionsKept_act hact hs.connections
  cases hact with
  | talk htalk =>
      cases htalk with
      | login u | logout tok | post tok m | speak fd x m =>
          exact hs.of_history hkept rfl rfl (fun _ _ h => h) rfl (fun _ _ _ => rfl)
            fun socket => passedOn_append_iff rfl
      | upgrade fd h tok =>
          refine hs.of_history hkept rfl rfl (fun _ _ h => h) rfl ?_
            fun socket => passedOn_append_iff rfl
          intro fd' h' ht'
          by_cases hh : h' = h
          · subst hh
            simp [Sessions.upgrade]
          · simp [Sessions.upgrade, hh]
  | forget fd h ht =>
      refine hs.of_history hkept rfl rfl (fun _ _ ht' => (of_update_none ht').2) rfl ?_
        fun _ => .rfl
      intro fd' h' ht'
      have hne := hs.other rfl (of_update_none ht').1 (of_update_none ht').2
      simp [Sessions.forget, hne]
  | closeHttp fd h ht =>
      refine hs.of_history hkept rfl rfl (fun _ _ ht' => (of_update_none ht').2) rfl ?_
        fun _ => .rfl
      intro fd' h' ht'
      have hne := hs.other rfl (of_update_none ht').1 (of_update_none ht').2
      simp [Sessions.closeHttp, Sessions.forget, hne]
  | closeWs fd x ht =>
      exact hs.of_history hkept rfl rfl (fun _ _ ht' => (of_update_none ht').2) rfl
        (fun _ _ _ => rfl) fun _ => .rfl
  | handOver fd h ht hup =>
      exact hs.handOver ht hup
  | accept fd hclosed =>
      exact hs.accept hclosed

end Numbers

section Aside

variable {cfg : Config} {h : HttpId} {calls : List RequestCall} {t : Target} {w w' : World}

theorem passedOn_sessions
    (socket : SocketId) (w : World) :
    PassedOn socket w.sessions.history ↔ PassedOn socket w.trace := by
  constructor
  · rintro ⟨o, ho, hpasses⟩
    exact ⟨o, (List.mem_filter.mp ho).1, hpasses⟩
  · rintro ⟨o, ho, hpasses⟩
    refine ⟨o, List.mem_filter.mpr ⟨ho, ?_⟩, hpasses⟩
    cases o with
    | adopt =>
        rfl
    | login | logout | message | upgrade | response | wrote | text =>
        cases hpasses

/-- Another connection is on another socket, or on one that has been passed on. -/
theorem Numbered.other_socket
    (hs : Numbered w.sessions) {fd : Fd} (ht : w.reactor.contexts fd = some t)
    (hne : t ≠ .http h) (hsocket : w.sockets (w.fdOf t) = h) :
    PassedOn h w.trace := by
  have hregistered := hs.connections.registered fd t ht
  cases t with
  | http h' =>
      have hfd : (w.https h').fd = fd := hregistered.1
      rw [World.fdOf, hfd] at hsocket
      have hnumber : h' = h := (hs.http fd h' ht).1.symm.trans hsocket
      exact absurd (congrArg Target.http hnumber) hne
  | ws x =>
      have hfd : (w.wss x).fd = fd := hregistered.1
      rw [World.fdOf, hfd] at hsocket
      rw [← passedOn_sessions, ← hsocket]
      exact hs.ws fd x ht

/-- An event of another connection: it sends on another socket, or on one that has been
passed on. -/
theorem Exchanged.aside
    (hw : Exchanged cfg h calls w) (haside : Aside t w w') (hne : t ≠ .http h)
    (hsocket : w.sockets (w.fdOf t) = h → PassedOn h w.trace) :
    Exchanged cfg h calls w' := by
  have hresponses : responsesTo h w'.trace = responsesTo h w.trace := haside.responsesTo hne
  have hanswered : answered h w'.trace = answered h w.trace := by
    rw [answered_eq, answered_eq, hresponses]
  have hanswers := hw.answers
  have hplain := hw.plain
  rw [← hresponses] at hanswers hplain
  obtain ⟨more, htrace, -⟩ := haside.history
  by_cases hpast : PassedOn h w.trace
  · refine ⟨hanswers, hplain, ?_, ?_⟩
    · rw [hanswered, htrace, sentBefore_append_passedOn hpast]
      exact hw.front
    · intro hnot
      rw [htrace] at hnot
      exact absurd (hpast.append more) hnot
  · have hsent : sentOn h w'.trace = sentOn h w.trace :=
      haside.sentOn fun hs => hpast (hsocket hs)
    have hconn : w'.https h = w.https h := haside.https h hne
    have hwhole : sentOn h w'.trace ++ (w'.https h).writeBuf.readable = answered h w'.trace := by
      rw [hsent, hconn, hanswered]
      exact hw.whole hpast
    refine ⟨hanswers, hplain, ?_, fun _ => hwhole⟩
    exact (sentBefore_front h w'.trace).trans ⟨_, hwhole⟩

end Aside

section Reading

variable {cfg : Config} {h : HttpId} {calls : List RequestCall} {seen : Bytes} {w w' : World}

theorem requestsTo_cons
    (w : World) (req : HttpRequest) (calls : List RequestCall) :
    requestsTo h ({ world := w, conn := h, req := req } :: calls) = req :: requestsTo h calls := by
  simp [requestsTo, callsTo]

/-- The loop handles the requests that the readable bytes drain to, and leaves the rest. -/
theorem requestLoop_drains
    {fuel : Nat} (hfuel : (w.https h).readBuf.readableBytes < fuel)
    (hok : HttpConnection.requestLoop (HttpServer.callbacks cfg) h fuel w = .ok w') :
    requestsTo h (callsOfLoop (HttpServer.callbacks cfg) h fuel w) =
        (requestDecoder.drain (w.https h).readBuf.readable).items ∧
      (w'.https h).readBuf.readable =
        (requestDecoder.drain (w.https h).readBuf.readable).unread := by
  induction fuel generalizing w with
  | zero =>
      exact absurd hfuel (Nat.not_lt_zero _)
  | succ fuel ih =>
      rw [HttpConnection.requestLoop] at hok
      rw [callsOfLoop]
      cases hverdict : requestDecoder.decode (w.https h).readBuf.readable with
      | malformed =>
          exact absurd hverdict (requestVerdict_ne_malformed _)
      | wait =>
          obtain ⟨req, readBuf, hparse, hread⟩ := parse_of_wait hverdict
          rw [hparse] at hok ⊢
          cases hok
          rw [Decoder.drain_wait _ hverdict]
          refine ⟨rfl, ?_⟩
          simpa [World.setHttp] using hread
      | done n req =>
          have hbounds := requestDecoder.done_bounds hverdict
          have hlen := (w.https h).readBuf.length_readable
          obtain ⟨readBuf, hparse, hread⟩ := parse_of_done hverdict
          rw [hparse] at hok ⊢
          dsimp only at hok ⊢
          rw [if_pos rfl] at hok ⊢
          obtain ⟨w₁, hcall, hrest⟩ := bind_eq_ok.mp hok
          obtain ⟨-, -, -, -, -, hbuf⟩ := dispatch_entries hcall
          have hleft : (w₁.https h).readBuf.readable =
              (w.https h).readBuf.readable.drop n := by
            rw [hbuf, ← hread]
            simp [World.setHttp]
          have hless : (w₁.https h).readBuf.readableBytes < fuel := by
            rw [← Buffer.length_readable, hleft, List.length_drop]
            omega
          obtain ⟨hitems, hunread⟩ := ih hless hrest
          rw [hcall, Decoder.drain_done hverdict]
          dsimp only
          rw [requestsTo_cons, hitems, hunread, hleft]
          exact ⟨rfl, rfl⟩

/-- What has been made of the bytes that a connection has received. -/
structure Parsed (h : HttpId) (seen : Bytes) (calls : List RequestCall) (w : World) : Prop where
  front : requestsTo h calls <+: (requestDecoder.drain seen).items
  fresh : w.httpAllocated ≤ h → seen = [] ∧ callsTo h calls = []
  current : ∀ fd, w.reactor.contexts fd = some (.http h) →
    requestsTo h calls = (requestDecoder.drain seen).items ∧
      (w.https h).readBuf.readable = (requestDecoder.drain seen).unread

/-- What does not touch the input of the connection. -/
theorem Parsed.still
    (hp : Parsed h seen calls w) (hallocated : w.httpAllocated ≤ w'.httpAllocated)
    (hcontexts : ∀ fd, w'.reactor.contexts fd = some (.http h) →
      w.reactor.contexts fd = some (.http h))
    (hbuf : (w'.https h).readBuf = (w.https h).readBuf) :
    Parsed h seen calls w' where
  front := hp.front
  fresh hle := hp.fresh (hallocated.trans hle)
  current fd ht := by
    rw [hbuf]
    exact hp.current fd (hcontexts fd ht)

/-- The connection has read. -/
theorem Parsed.onRead
    (hp : Parsed h seen calls w) {fd : Fd} (hs : Numbered w'.sessions)
    (ht : w.reactor.contexts fd = some (.http h)) (hlt : h < w'.httpAllocated) {s : Input}
    (hok : HttpConnection.onRead (HttpServer.callbacks cfg) w h s = .ok w') :
    Parsed h (seen ++ s.pending)
      (calls ++ callsOfRead (HttpServer.callbacks cfg) w h s) w' := by
  obtain ⟨hhandled, hunread⟩ := hp.current fd ht
  rw [HttpConnection.onRead] at hok
  rw [callsOfRead]
  by_cases hidle : s.idle = .again
  · obtain ⟨readBuf, hrecv, hread⟩ := recvLoop_again hidle (w.https h).readBuf
    rw [hrecv] at hok ⊢
    dsimp only at hok ⊢
    have hconn : (w.setHttp h { w.https h with readBuf := readBuf }).https h =
        { w.https h with readBuf := readBuf } := Function.update_self _ _ _
    obtain ⟨hitems, hleft⟩ := requestLoop_drains (by rw [hconn]; exact Nat.lt_succ_self _) hok
    rw [hconn] at hitems hleft
    dsimp only at hitems hleft
    have hdrain := Decoder.drain_append_unread (d := requestDecoder) seen s.pending
    rw [hread, hunread] at hitems hleft
    have hall : requestsTo h (calls ++ callsOfLoop (HttpServer.callbacks cfg) h
        (readBuf.readableBytes + 1) (w.setHttp h { w.https h with readBuf := readBuf })) =
          (requestDecoder.drain (seen ++ s.pending)).items := by
      rw [requestsTo_append, hitems, hhandled, hdrain]
    refine ⟨?_, fun hle => absurd hle (Nat.not_le.mpr hlt), fun fd' ht' => ⟨hall, ?_⟩⟩
    · rw [hall]
    · rw [hleft, hdrain]
  · obtain ⟨readBuf, hrecv⟩ := recvLoop_gone hidle (w.https h).readBuf
    rw [hrecv] at hok ⊢
    dsimp only at hok ⊢
    rw [List.append_nil]
    refine ⟨?_, fun hle => absurd hle (Nat.not_le.mpr hlt), fun fd' ht' => ?_⟩
    · exact hp.front.trans (Decoder.items_prefix _ _)
    · -- the connection is closed, so it is not registered
      have hopen := (hs.http fd' h ht').2.1
      have hstate := congrArg (·.state) (httpClose_https hok)
      exact absurd hstate hopen

/-- The connection has written. -/
theorem Parsed.onWrite
    (hp : Parsed h seen calls w) {sends : List SendResult}
    (hok : HttpConnection.onWrite (HttpServer.callbacks cfg) h w sends = .ok w') :
    Parsed h seen calls w' := by
  have haside := aside_httpWrite hok
  refine hp.still haside.httpAllocated.ge (fun fd => haside.registered_http) ?_
  obtain ⟨w₁, hw₁, hend⟩ := HttpConnection.onWrite_keeps
    (I := fun w₁ => (w₁.https h).readBuf = (w.https h).readBuf)
    (fun w₁ n hw₁ => by simpa [HttpConnection.wrote, World.setHttp] using hw₁) rfl hok
  rcases hend with rfl | hclose | ⟨-, rfl⟩
  · exact hw₁
  · rw [httpClose_https hclose]
    exact hw₁
  · exact hw₁

end Reading

section Runs

variable {cfg : Config} {events : List Event} {h : HttpId} {calls : List RequestCall}
  {seen : Bytes} {received : List Arrival} {w w' : World} {e : Event}

theorem Numbered.step
    (hs : Numbered w.sessions) (hok : step cfg w e = .ok w') :
    Numbered w'.sessions :=
  Acts.keeps (P := fun _ _ => True) (fun _ _ => numbered_act)
    (step_acts (fun _ _ _ _ h => h) (fun _ _ => trivial) hok) hs

/-- The calls of an event are calls of the connection that is registered. -/
theorem callsTo_other
    {fd : Fd} {t : Target} {events : Ready} {input : Input} {sends : List SendResult}
    (ht : w.reactor.contexts fd = some t) (hne : t ≠ .http h) :
    callsTo h (callsOf cfg w (.ready fd events input sends)) = [] := by
  have hloop (h' : HttpId) (hh : h' ≠ h) (fuel : Nat) (w : World) :
      callsTo h (callsOfLoop (HttpServer.callbacks cfg) h' fuel w) = [] := by
    induction fuel generalizing w with
    | zero =>
        rfl
    | succ fuel ih =>
        rw [callsOfLoop]
        generalize HttpRequest.new.parse (w.https h').readBuf = parsed
        obtain ⟨complete, req, readBuf⟩ := parsed
        dsimp only
        split
        · split
          · simp [callsTo, hh]
          · simp only [callsTo, List.filter_cons, hh, decide_false]
            exact ih _
        · rfl
  rw [callsOf, ht]
  cases t with
  | ws x =>
      rfl
  | http h' =>
      have hh : h' ≠ h := fun heq => hne (by rw [heq])
      dsimp only
      split
      · rw [callsOfRead]
        split
        · rfl
        · exact hloop h' hh _ _
      · rfl

/-- Calls of other connections do not matter. -/
theorem Exchanged.append_calls
    (hw : Exchanged cfg h calls w) {more : List RequestCall} (hmore : callsTo h more = []) :
    Exchanged cfg h (calls ++ more) w where
  answers := by
    rw [callsTo_append, hmore, List.append_nil]
    exact hw.answers
  plain := hw.plain
  front := hw.front
  whole := hw.whole

theorem Parsed.append_calls
    (hp : Parsed h seen calls w) {more : List RequestCall} (hmore : callsTo h more = []) :
    Parsed h seen (calls ++ more) w := by
  have hcalls : callsTo h (calls ++ more) = callsTo h calls := by
    rw [callsTo_append, hmore, List.append_nil]
  have hrequests : requestsTo h (calls ++ more) = requestsTo h calls :=
    congrArg (List.map RequestCall.req) hcalls
  refine ⟨?_, ?_, ?_⟩
  · rw [hrequests]
    exact hp.front
  · rw [hcalls]
    exact hp.fresh
  · rw [hrequests]
    exact hp.current

/-- A connection is accepted; it has received, handled and sent nothing. -/
theorem Exchanged.accept
    (ho : Orderly w) (hs : Numbered w.sessions) (hw : Exchanged cfg h calls w) {fd : Fd}
    (hacc : Accepted fd w w') :
    Exchanged cfg h calls w' := by
  have hwhole : ¬ PassedOn h w'.trace →
      sentOn h w'.trace ++ (w'.https h).writeBuf.readable = answered h w'.trace := by
    rw [hacc.trace, hacc.https]
    intro hnot
    by_cases hh : h = w.httpAllocated
    · have hnext : w.nextSocket = w.httpAllocated := hs.count
      have hsent : sentOn h w.trace = [] := ho.sentOn_fresh (by rw [hh, hnext])
      have hanswered : answered h w.trace = [] := ho.answered_fresh (by rw [hh])
      rw [hsent, hanswered, hh, Function.update_self]
      exact Buffer.readable_new
    · rw [Function.update_of_ne hh]
      exact hw.whole hnot
  have hanswers := hw.answers
  have hplain := hw.plain
  have hfront := hw.front
  rw [← hacc.trace] at hanswers hplain hfront
  exact ⟨hanswers, hplain, hfront, hwhole⟩

theorem Parsed.accept
    (hp : Parsed h seen calls w) {fd : Fd} (hacc : Accepted fd w w') :
    Parsed h seen calls w' where
  front := hp.front
  fresh hle := by
    rw [hacc.httpAllocated] at hle
    exact hp.fresh (Nat.le_of_succ_le hle)
  current fd' ht := by
    rw [hacc.contexts, Function.update_apply] at ht
    rw [hacc.https]
    by_cases hh : h = w.httpAllocated
    · obtain ⟨hseen, hcalls⟩ := hp.fresh (Nat.le_of_eq hh.symm)
      have hdrain : requestDecoder.drain [] = { items := [], unread := [], failed := false } :=
        Decoder.drain_wait [] rfl
      rw [hh, Function.update_self, ← hh, hseen, requestsTo, hcalls, hdrain]
      exact ⟨rfl, Buffer.readable_new⟩
    · rw [Function.update_of_ne hh]
      split at ht
      · cases ht
        exact absurd rfl hh
      · exact hp.current fd' ht

/-- An event of the connection itself. -/
theorem Parsed.handleEvent
    (hp : Parsed h seen calls w) (hs : Numbered w.sessions) {fd : Fd} {events : Ready}
    {input : Input} {sends : List SendResult} (ht : w.reactor.contexts fd = some (.http h))
    (hok : handleEvent cfg w fd events input sends = .ok w') :
    Parsed h (seen ++ bytesFor (.http h) (arrivals w (.ready fd events input sends)))
      (calls ++ callsOf cfg w (.ready fd events input sends)) w' := by
  obtain ⟨w₁, hfirst, hsecond⟩ := handleEvent_cases ht hok
  have hlt : h < w.httpAllocated := (hs.connections.registered fd _ ht).2.1
  rw [callsOf, ht, arrivals_registered ht]
  dsimp only
  have hread : Parsed h
      (seen ++ bytesFor (.http h)
        (if events.failure || events.input then
          [{  socket := w.sockets fd, target := .http h
              bytes := input.pending, idle := input.idle }]
        else
          []))
      (calls ++
        (if events.failure || events.input then
          callsOfRead (HttpServer.callbacks cfg) w h input
        else
          [])) w₁ := by
    split at hfirst
    · next hreads =>
        rw [if_pos hreads, if_pos hreads]
        have hs₁ : Numbered w₁.sessions :=
          Acts.keeps (P := fun _ _ => True) (fun _ _ => numbered_act)
            (httpRead_acts ht hfirst).1 hs
        have hlt₁ : h < w₁.httpAllocated := by
          rw [(aside_httpRead hfirst).httpAllocated]
          exact hlt
        have hbytes : bytesFor (.http h)
            [{  socket := w.sockets fd, target := .http h
                bytes := input.pending, idle := input.idle }] =
              input.pending := by
          simp [bytesFor]
        rw [hbytes]
        exact hp.onRead hs₁ ht hlt₁ hfirst
    · next hreads =>
        cases hfirst
        rw [if_neg hreads, if_neg hreads, show bytesFor (.http h) [] = [] from rfl,
          List.append_nil, List.append_nil]
        exact hp
  rcases hsecond with rfl | ⟨-, -, hsecond⟩
  · exact hread
  · exact hread.onWrite hsecond

/-- A step of the server. -/
theorem exchanges_step
    (ho : Orderly w) (hs : Numbered w.sessions) (hw : Exchanged cfg h calls w)
    (hp : Parsed h (bytesFor (.http h) received) calls w) (hok : step cfg w e = .ok w') :
    Exchanged cfg h (calls ++ callsOf cfg w e) w' ∧
      Parsed h (bytesFor (.http h) (received ++ arrivals w e)) (calls ++ callsOf cfg w e) w' := by
  have hidle (more : List RequestCall) (past : List Arrival) (hmore : more = [])
      (hpast : past = []) (hw' : Exchanged cfg h calls w')
      (hp' : Parsed h (bytesFor (.http h) received) calls w') :
      Exchanged cfg h (calls ++ more) w' ∧
        Parsed h (bytesFor (.http h) (received ++ past)) (calls ++ more) w' := by
    rw [hmore, hpast, List.append_nil, List.append_nil]
    exact ⟨hw', hp'⟩
  cases e with
  | clock now =>
      cases hok
      exact hidle _ _ rfl rfl (hw.unseen rfl rfl) (hp.still le_rfl (fun _ h => h) rfl)
  | files files =>
      cases hok
      exact hidle _ _ rfl rfl (hw.unseen rfl rfl) (hp.still le_rfl (fun _ h => h) rfl)
  | accept fd =>
      rw [step] at hok
      split at hok
      · cases hok
        exact hidle _ _ rfl rfl hw hp
      · have hacc := onAccept_accepted hok
        exact hidle _ _ rfl rfl (hw.accept ho hs hacc) (hp.accept hacc)
  | ready fd events input sends =>
      cases ht : w.reactor.contexts fd with
      | none =>
          rw [step, handleEvent, ht] at hok
          cases hok
          exact hidle _ _ (by rw [callsOf, ht]) (arrivals_unregistered ht) hw hp
      | some t =>
          by_cases ht' : t = .http h
          · subst ht'
            have hfd : (w.https h).fd = fd := (hs.connections.registered fd _ ht).1
            have hsocket : w.sockets (w.https h).fd = h := by
              rw [hfd]
              exact (hs.http fd h ht).1
            have hboth := (exchanged_http cfg h).handleEvent ht ⟨hsocket, hw⟩ hok
            rw [bytesFor_append]
            exact ⟨hboth.2, hp.handleEvent hs ht hok⟩
          · have haside := handleEvent_aside ht hok
            have hmore : callsTo h (callsOf cfg w (.ready fd events input sends)) = [] :=
              callsTo_other ht ht'
            have hw' := hw.aside haside ht' (hs.other_socket ht ht')
            have hp' : Parsed h (bytesFor (.http h) received) calls w' := by
              refine hp.still haside.httpAllocated.ge (fun fd => haside.registered_http) ?_
              rw [haside.https h ht']
            refine ⟨hw'.append_calls hmore, ?_⟩
            rw [bytesFor_append, bytesFor_arrivals_other ht ht', List.append_nil]
            exact hp'.append_calls hmore

/-- What a connection has received in a run. -/
def receivedBy (cfg : Config) (events : List Event) (h : HttpId) : Bytes :=
  bytesFor (.http h) (outputs arrivals (step cfg) World.init events)

/-- What is known of a connection in every state of a run. -/
structure Exchanging (cfg : Config) (h : HttpId) (calls : List RequestCall)
    (received : List Arrival) (w : World) : Prop where
  orderly : Orderly w
  numbered : Numbered w.sessions
  exchanged : Exchanged cfg h calls w
  parsed : Parsed h (bytesFor (.http h) received) calls w

theorem Exchanging.step
    (hw : Exchanging cfg h calls received w) (hok : Web.step cfg w e = .ok w') :
    Exchanging cfg h (calls ++ callsOf cfg w e) (received ++ arrivals w e) w' := by
  obtain ⟨hexchanged, hparsed⟩ :=
    exchanges_step hw.orderly hw.numbered hw.exchanged hw.parsed hok
  exact ⟨hw.orderly.step hok, hw.numbered.step hok, hexchanged, hparsed⟩

theorem exchanging_init
    (cfg : Config) (h : HttpId) :
    Exchanging cfg h [] [] World.init where
  orderly := orderly_init
  numbered := numbered_init
  exchanged := by
    refine ⟨.nil, ?_, List.prefix_rfl, fun _ => Buffer.readable_new⟩
    intro resp hresp
    cases hresp
  parsed := by
    refine ⟨List.nil_prefix, fun _ => ⟨rfl, rfl⟩, ?_⟩
    intro fd ht
    cases ht

theorem exchanging_runServer
    (hrun : runServer cfg events = .ok w) (h : HttpId) :
    Exchanging cfg h (requestCalls cfg events)
      (outputs arrivals (step cfg) World.init events) w := by
  have hall := outputs_invariant_both (I := Exchanging cfg h) (C := fun _ _ => True)
    (fun calls received w₁ e w₂ hw _ hok => hw.step hok) (exchanging_init cfg h)
    (meets_true _ events) hrun
  rwa [List.nil_append, List.nil_append] at hall

/-- In every run of the server, the requests of a connection that have been handled are a
front of the requests in the bytes that it has received, and all of them while it is
registered.  Each has been given one response, in that order.  What has been sent on the
socket until it is passed on can be decoded without knowing the requests: a client that does
so reads a front of the responses. -/
theorem exchanges_in_order
    (hrun : runServer cfg events = .ok w) (h : HttpId) :
    requestsTo h (requestCalls cfg events) <+:
        (requestDecoder.drain (receivedBy cfg events h)).items ∧
      (∀ fd, w.reactor.contexts fd = some (.http h) →
        requestsTo h (requestCalls cfg events) =
          (requestDecoder.drain (receivedBy cfg events h)).items) ∧
      List.Forall₂ (RequestCall.AnsweredBy cfg) (callsTo h (requestCalls cfg events))
        (responsesTo h w.trace) ∧
      (responseDecoder.drain (sentBefore h w.trace)).failed = false ∧
      (responseDecoder.drain (sentBefore h w.trace)).items <+:
        (responsesTo h w.trace).map HttpResponse.received := by
  obtain ⟨-, -, hw, hp⟩ := exchanging_runServer hrun h
  have hfront := hw.front
  rw [answered_eq] at hfront
  obtain ⟨hitems, hok, -⟩ := drain_responses hw.plain hfront
  exact ⟨hp.front, fun fd ht => (hp.current fd ht).1, hw.answers, hok, hitems⟩

/-- A client logs in and asks for the messages without waiting for an answer. -/
def pipelinedRequests : List Event :=
  [.accept 5,
    arrive 5 (bytes "POST /api/login HTTP/1.1\r\nContent-Length: 16\r\n\r\n" ++ loginBody ++
      bytes "GET /api/messages HTTP/1.1\r\n\r\n")]

/-- It takes both answers at once. -/
def pipelinedRun : List Event :=
  pipelinedRequests ++ [writable 5]

theorem exchanges_in_order_pipelinedRun :
    ∃ w, runServer sampleConfig pipelinedRun = .ok w ∧
      (requestsTo 0 (requestCalls sampleConfig pipelinedRun)).length = 2 ∧
      List.Forall₂ (RequestCall.AnsweredBy sampleConfig)
        (callsTo 0 (requestCalls sampleConfig pipelinedRun)) (responsesTo 0 w.trace) ∧
      (responseDecoder.drain (sentBefore 0 w.trace)).items <+:
        (responsesTo 0 w.trace).map HttpResponse.received := by
  obtain ⟨w, hrun, hw⟩ := exists_ok_of_any
    (runServer sampleConfig pipelinedRun)
    (fun _ => (requestsTo 0 (requestCalls sampleConfig pipelinedRun)).length = 2)
    (by decide +kernel)
  have htwo := of_decide_eq_true hw
  obtain ⟨-, -, hanswers, -, hitems⟩ := exchanges_in_order hrun 0
  exact ⟨w, hrun, htwo, hanswers, hitems⟩

end Runs

end Web
end ChatRoom
