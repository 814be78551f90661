import ChatRoom.Web.Broadcast

/-!
# The start-up of a client

A client asks for the history and opens a WebSocket connection, in no particular
order (`loadHistory` and `connectWs` of frontend/app.js).  The answer has the
messages that the room has when the request is handled; the hub sends those that
are added since it has adopted the connection, and no others.  Nothing ties the
two moments together, so what is added between them is missed or comes twice
(`startUp_reaches_once_iff`).
-/

namespace ChatRoom
namespace Web

open Http Runs Ws

section Reaching

/-- The entries up to the adoption of a connection. -/
def beforeAdoption (x : WsId) (history : List Obs) : List Obs :=
  history.rdropWhile fun o => !o.adopts x

theorem messagesOf_adoption
    (x : WsId) (history : List Obs) :
    messagesOf (beforeAdoption x history) ++ messagesOf (sinceAdoption x history) =
      messagesOf history := by
  rw [← messagesOf_append, beforeAdoption, sinceAdoption,
    List.rdropWhile_append_rtakeWhile]

/-- Every message reaches the client once: in the answer to its request or as a text on its
connection. -/
def ReachesOnce (c : RequestCall) (x : WsId) (w : World) : Prop :=
  (c.returned ++ messagesOf (sinceAdoption x w.trace)).Perm (messagesOf w.trace)

/-- The answer has all messages from before the adoption, which needs time stamps that are
positive, and those that are added from then on until the request have no positive ones. -/
structure StartsTogether (c : RequestCall) (x : WsId) (w : World) : Prop where
  covered : messagesOf (beforeAdoption x w.trace) <+: messagesOf c.world.trace
  positive : ∀ m ∈ messagesOf (beforeAdoption x w.trace), 0 < m.time
  between : ∀ m ∈ (messagesOf c.world.trace).drop
    (messagesOf (beforeAdoption x w.trace)).length, m.time ≤ 0

theorem startsTogether_iff
    (c : RequestCall) (x : WsId) (w : World) :
    StartsTogether c x w ↔
      messagesOf (beforeAdoption x w.trace) <+: messagesOf c.world.trace ∧
        (∀ m ∈ messagesOf (beforeAdoption x w.trace), 0 < m.time) ∧
          ∀ m ∈ (messagesOf c.world.trace).drop
            (messagesOf (beforeAdoption x w.trace)).length, m.time ≤ 0 := by
  constructor
  · intro h
    exact ⟨h.covered, h.positive, h.between⟩
  · rintro ⟨hcovered, hpositive, hbetween⟩
    exact ⟨hcovered, hpositive, hbetween⟩

instance (c : RequestCall) (x : WsId) (w : World) : Decidable (StartsTogether c x w) :=
  decidable_of_iff _ (startsTogether_iff c x w).symm

end Reaching

section Seam

variable {α : Type*} {p : α → Bool} {all early since front : List α}

/-- What is filtered from a front of a list and what follows another front are together the
list iff the filtered front is the other one. -/
theorem filter_append_perm_iff
    (hall : all = early ++ since) (hfront : front <+: all) :
    (front.filter p ++ since).Perm all ↔
      early <+: front ∧ (∀ a ∈ early, p a = true) ∧
        ∀ a ∈ front.drop early.length, p a = false := by
  rw [hall, List.perm_append_right_iff]
  constructor
  · intro hperm
    have hlength := hperm.length_eq
    have hpositive : ∀ a ∈ early, p a = true := fun a ha =>
      (List.mem_filter.mp (hperm.mem_iff.mpr ha)).2
    have hearly : early <+: front := by
      rcases List.prefix_or_prefix_of_prefix ⟨since, hall.symm⟩ hfront with h | h
      · exact h
      · -- a shorter front has too few elements
        have hshort := List.length_filter_le p front
        rw [h.eq_of_length_le (by omega)]
    refine ⟨hearly, hpositive, ?_⟩
    obtain ⟨rest, rfl⟩ := hearly
    rw [List.filter_append, List.filter_eq_self.mpr hpositive, List.length_append] at hlength
    have hnone : rest.filter p = [] := List.length_eq_zero_iff.mp (by omega)
    rw [List.drop_left]
    intro a ha
    exact Bool.eq_false_iff.mpr (List.filter_eq_nil_iff.mp hnone a ha)
  · rintro ⟨⟨rest, rfl⟩, hpositive, hrest⟩
    rw [List.drop_left] at hrest
    have hnone : rest.filter p = [] :=
      List.filter_eq_nil_iff.mpr fun a ha => by simp [hrest a ha]
    rw [List.filter_append, List.filter_eq_self.mpr hpositive, hnone, List.append_nil]

end Seam

section StartUp

variable {cfg : Config} {events : List Event} {w : World} {c : RequestCall} {x : WsId}

/-- As long as no message has been dropped, the whole history is returned. -/
theorem returned_history
    (hrun : runServer cfg events = .ok w) (hc : c ∈ requestCalls cfg events)
    (hsince : c.since = 0) (hfew : (messagesOf w.trace).length ≤ Room.MAX_HISTORY) :
    messagesOf c.world.trace <+: messagesOf w.trace ∧
      c.returned = (messagesOf c.world.trace).filter fun m => 0 < m.time := by
  obtain ⟨-, hcalls⟩ := recorded_runServer hrun
  have hfront := messagesOf_prefix (hcalls.before c hc)
  refine ⟨hfront, ?_⟩
  have hlength := hfront.length_le
  have hall : (messagesOf c.world.trace).length - Room.MAX_HISTORY = 0 := by
    omega
  rw [RequestCall.returned, hsince, (hcalls.kept c hc).recentMessages, List.rtake, hall,
    List.drop_zero]

/-- For every run, every request for the whole history in it and every connection in the hub:
the request is answered with its messages and the connection is sent the texts of those added
since its adoption; and every message reaches the client once iff nothing is added between the
two moments. -/
theorem startUp_reaches_once_iff
    (hrun : runServer cfg events = .ok w)
    (hfew : (messagesOf w.trace).length ≤ Room.MAX_HISTORY)
    (hc : c ∈ requestCalls cfg events) (hasks : AsksMessages cfg.json c) (hsince : c.since = 0)
    (hx : x ∈ w.hub) :
    c.Recalls cfg ∧
      Transmits cfg.json (sinceAdoption x w.trace) (appended cfg events x) ∧
      (ReachesOnce c x w ↔ StartsTogether c x w) := by
  obtain ⟨hfront, hreturned⟩ := returned_history hrun hc hsince hfew
  refine ⟨hasks.recalls, appended_transmits hrun hx, ?_⟩
  have hseam := filter_append_perm_iff (p := fun m : Message => decide (0 < m.time))
    (messagesOf_adoption x w.trace).symm hfront
  rw [ReachesOnce, hreturned, hseam]
  simp only [decide_eq_true_eq, decide_eq_false_iff_not, Int.not_lt]
  exact (startsTogether_iff c x w).symm

/-- The second user says something. -/
def otherSpeaks : Event :=
  arrive 6 (bytes "POST /api/messages?token=tok_0000000000000002 HTTP/1.1\r\n" ++
    bytes "Content-Length: 30\r\n\r\n" ++ chatBody)

/-- The first user asks for the history. -/
def asksHistory : Event :=
  arrive 5 (bytes "GET /api/messages?token=tok_0000000000000001&limit=50 HTTP/1.1\r\n\r\n")

/-- The first user opens a WebSocket connection. -/
def opensConnection : List Event :=
  [.accept 7, arrive 7 upgradeRequest, writable 7]

theorem startUp_reaches_once_twoUsersRun :
    ∃ w c, runServer twoUsersConfig
        (twoUsersRun ++ [otherSpeaks, asksHistory] ++ opensConnection ++ [otherSpeaks]) = .ok w ∧
      c ∈ requestCalls twoUsersConfig
        (twoUsersRun ++ [otherSpeaks, asksHistory] ++ opensConnection ++ [otherSpeaks]) ∧
      (messagesOf w.trace).length = 2 ∧ ReachesOnce c 0 w := by
  generalize hevents :
    twoUsersRun ++ [otherSpeaks, asksHistory] ++ opensConnection ++ [otherSpeaks] = events
  obtain ⟨w, hrun, hw⟩ := exists_ok_of_any
    (runServer twoUsersConfig events)
    (fun w => (messagesOf w.trace).length = 2 ∧ 0 ∈ w.hub ∧
      (requestCalls twoUsersConfig events).any fun c =>
        AsksMessages twoUsersConfig.json c ∧ c.since = 0 ∧ StartsTogether c 0 w)
    (by subst hevents; decide +kernel)
  obtain ⟨htwo, hx, hany⟩ := of_decide_eq_true hw
  obtain ⟨c, hc, htest⟩ := List.any_eq_true.mp hany
  obtain ⟨hasks, hsince, htogether⟩ := of_decide_eq_true htest
  have hfew : (messagesOf w.trace).length ≤ Room.MAX_HISTORY := by
    rw [htwo]
    decide
  exact ⟨w, c, hrun, hc, htwo,
    (startUp_reaches_once_iff hrun hfew hc hasks hsince hx).2.2.mpr htogether⟩

/-- What is said between the request for the history and the adoption of the connection is
in neither. -/
theorem startUp_misses_message :
    ∃ w c, runServer twoUsersConfig
        (twoUsersRun ++ [asksHistory, otherSpeaks] ++ opensConnection) = .ok w ∧
      c ∈ requestCalls twoUsersConfig
        (twoUsersRun ++ [asksHistory, otherSpeaks] ++ opensConnection) ∧
      AsksMessages twoUsersConfig.json c ∧ c.since = 0 ∧ 0 ∈ w.hub ∧
      (messagesOf w.trace).length = 1 ∧ c.returned = [] ∧
      messagesOf (sinceAdoption 0 w.trace) = [] ∧ ¬ ReachesOnce c 0 w := by
  generalize hevents :
    twoUsersRun ++ [asksHistory, otherSpeaks] ++ opensConnection = events
  obtain ⟨w, hrun, hw⟩ := exists_ok_of_any
    (runServer twoUsersConfig events)
    (fun w => 0 ∈ w.hub ∧ (messagesOf w.trace).length = 1 ∧
      messagesOf (sinceAdoption 0 w.trace) = [] ∧
      (requestCalls twoUsersConfig events).any fun c =>
        AsksMessages twoUsersConfig.json c ∧ c.since = 0 ∧ c.returned = [])
    (by subst hevents; decide +kernel)
  obtain ⟨hx, hone, hsilent, hany⟩ := of_decide_eq_true hw
  obtain ⟨c, hc, htest⟩ := List.any_eq_true.mp hany
  obtain ⟨hasks, hsince, hreturned⟩ := of_decide_eq_true htest
  refine ⟨w, c, hrun, hc, hasks, hsince, hx, hone, hreturned, hsilent, ?_⟩
  intro hreaches
  have hlength := hreaches.length_eq
  rw [hreturned, hsilent, hone] at hlength
  cases hlength

end StartUp

end Web
end ChatRoom
