import ChatRoom.Lib.Polling
import ChatRoom.Web.StartUp

/-!
# The polls of a client

A client may ask for messages again and again, each time for those behind the
largest time stamp it has received.  The time stamps are milliseconds and several
messages may share one, so a message is missed if it carries the time stamp of the
newest message that the client has; else it is returned once
(`polls_return_once`).

Messages are told apart by the number of messages added before them
(`RequestCall.returnedAt`).  A client that polls is then a reader of a bounded log.
-/

namespace ChatRoom
namespace Web

open Http Runs

section Positions

variable {α : Type*} {c : RequestCall}

/-- The number of messages added before the call. -/
def RequestCall.added (c : RequestCall) : Nat :=
  (messagesOf c.world.trace).length

/-- The messages in the answer, each with the number of messages added before it. -/
def RequestCall.returnedAt (c : RequestCall) : List (Message × Nat) :=
  (c.world.room.messages.zipIdx (c.added - c.world.room.messages.length)).filter
    fun e => e.1.time > c.since

theorem returnedAt_fst
    (c : RequestCall) :
    c.returnedAt.map Prod.fst = c.returned := by
  have hfst := List.zipIdx_map_fst (c.added - c.world.room.messages.length) c.world.room.messages
  rw [RequestCall.returned, Room.recentMessages]
  conv_rhs => rw [← hfst]
  rw [List.filter_map]
  rfl

/-- The call, as a poll of the log of all messages. -/
def RequestCall.poll (c : RequestCall) : Polling.Poll (Message × Nat) Int where
  cursor := c.since
  log := (messagesOf c.world.trace).zipIdx

/-- The key of an entry of the log. -/
def stamp (e : Message × Nat) : Int :=
  e.1.time

theorem rtake_zipIdx
    (l : List α) (n : Nat) :
    l.zipIdx.rtake n = (l.rtake n).zipIdx (l.length - (l.rtake n).length) := by
  unfold List.rtake
  rw [List.length_zipIdx, List.length_drop]
  generalize hk : l.length - n = k
  have hlength : (l.take k).length = k := by
    rw [List.length_take]
    omega
  have hsplit := @List.zipIdx_append _ (l.take k) (l.drop k) 0
  rw [List.take_append_drop, hlength, Nat.zero_add] at hsplit
  have hfront : (l.take k).zipIdx.length = k := by
    rw [List.length_zipIdx, hlength]
  have hoffset : l.length - (l.length - k) = k := by
    omega
  rw [hsplit, List.drop_left' hfront, hoffset]

/-- An entry that is among the last ones. -/
theorem mem_rtake_zipIdx
    {l : List α} {a : α} {i n : Nat} (ha : l[i]? = some a) (hn : l.length ≤ i + n) :
    (a, i) ∈ l.zipIdx.rtake n := by
  unfold List.rtake
  rw [List.length_zipIdx, List.mem_iff_getElem?]
  refine ⟨i - (l.length - n), ?_⟩
  have hi : l.length - n + (i - (l.length - n)) = i := by
    omega
  rw [List.getElem?_drop, hi, List.getElem?_zipIdx, ha]
  simp

theorem nodup_zipIdx
    (l : List α) :
    l.zipIdx.Nodup := by
  apply List.Nodup.of_map Prod.snd
  rw [List.zipIdx_map_snd]
  exact List.nodup_range'

theorem sorted_zipIdx
    {messages : List Message} (hsorted : messages.Pairwise fun m m' => m.time ≤ m'.time) :
    messages.zipIdx.Pairwise fun a b => stamp a ≤ stamp b := by
  have hfst : messages.zipIdx.map Prod.fst = messages := List.zipIdx_map_fst 0 _
  rw [← hfst, List.pairwise_map] at hsorted
  exact hsorted

theorem returnedAt_eq
    (hkept : RoomKept c.world) :
    c.returnedAt = c.poll.returned stamp Room.MAX_HISTORY := by
  rw [RequestCall.returnedAt, RequestCall.added, hkept, ← rtake_zipIdx]
  rfl

theorem flatMap_returnedAt
    {calls : List RequestCall} (hkept : ∀ c ∈ calls, RoomKept c.world) :
    calls.flatMap RequestCall.returnedAt =
      (calls.map RequestCall.poll).flatMap (Polling.Poll.returned stamp Room.MAX_HISTORY) := by
  induction calls with
  | nil =>
      rfl
  | cons c calls ih =>
      obtain ⟨hc, hkept⟩ := List.forall_mem_cons.mp hkept
      rw [List.flatMap_cons, returnedAt_eq hc, ih hkept, List.map_cons, List.flatMap_cons]

/-- A message that is added later is not in the log of the poll. -/
theorem not_mem_log
    {m : Message} {i : Nat} (hi : c.added ≤ i) :
    (m, i) ∉ c.poll.log := by
  intro hlog
  have hlt := List.snd_lt_of_mem_zipIdx hlog
  rw [Nat.add_zero] at hlt
  exact Nat.lt_irrefl _ (Nat.lt_of_lt_of_le hlt hi)

end Positions

section Client

variable {J : JsonLib} {cfg : Config} {c : RequestCall} {polls : List RequestCall} {cursor : Int}

/-- Each poll asks for the messages behind the largest time stamp received so far. -/
def FollowsCursor (J : JsonLib) : Int → List RequestCall → Prop
  | _, [] => True
  | cursor, c :: polls =>
      AsksMessages J c ∧ c.since = cursor ∧
        FollowsCursor J (Polling.advance Message.time cursor c.returned) polls

instance decidableFollowsCursor (J : JsonLib) :
    (cursor : Int) → (polls : List RequestCall) → Decidable (FollowsCursor J cursor polls)
  | _, [] => inferInstanceAs (Decidable True)
  | cursor, c :: polls =>
      have := decidableFollowsCursor J (Polling.advance Message.time cursor c.returned) polls
      inferInstanceAs (Decidable (_ ∧ _ ∧ _))

theorem FollowsCursor.asks
    (hcursor : FollowsCursor J cursor polls) (hc : c ∈ polls) :
    AsksMessages J c := by
  induction polls generalizing cursor with
  | nil =>
      cases hc
  | cons d polls ih =>
      obtain ⟨hasks, -, hrest⟩ := hcursor
      rcases List.mem_cons.mp hc with rfl | hc
      · exact hasks
      · exact ih hrest hc

/-- The client is a reader that follows its cursor. -/
theorem FollowsCursor.follows
    (hcursor : FollowsCursor J cursor polls) (hkept : ∀ c ∈ polls, RoomKept c.world) :
    Polling.Follows stamp Room.MAX_HISTORY cursor (polls.map RequestCall.poll) := by
  induction polls generalizing cursor with
  | nil =>
      trivial
  | cons c polls ih =>
      obtain ⟨-, hsince, hrest⟩ := hcursor
      obtain ⟨hc, hkept⟩ := List.forall_mem_cons.mp hkept
      have hadvance : Polling.advance stamp cursor (c.poll.returned stamp Room.MAX_HISTORY) =
          Polling.advance Message.time cursor c.returned := by
        rw [← returnedAt_eq hc, ← returnedAt_fst, Polling.advance, Polling.advance,
          List.foldl_map]
        rfl
      refine ⟨hsince, ?_⟩
      rw [hadvance]
      exact ih hrest hkept

/-- The log of messages grows from poll to poll. -/
theorem grows_polls
    {all old : List Message} (hold : old <+: all)
    (hafter : ∀ c ∈ polls, old <+: messagesOf c.world.trace)
    (hbefore : ∀ c ∈ polls, messagesOf c.world.trace <+: all)
    (horder : polls.Pairwise fun c d => c.world.trace <+: d.world.trace) :
    Polling.Grows all.zipIdx old.zipIdx (polls.map RequestCall.poll) := by
  have hzip {l l' : List Message} (h : l <+: l') : l.zipIdx <+: l'.zipIdx := by
    obtain ⟨rest, rfl⟩ := h
    rw [List.zipIdx_append]
    exact List.prefix_append _ _
  induction polls generalizing old with
  | nil =>
      exact hzip hold
  | cons c polls ih =>
      obtain ⟨hnext, horder⟩ := List.pairwise_cons.mp horder
      obtain ⟨hc, hbefore⟩ := List.forall_mem_cons.mp hbefore
      refine ⟨hzip (hafter c (by simp)), ih hc ?_ hbefore horder⟩
      intro d hd
      exact messagesOf_prefix (hnext d hd)

end Client

section Once

variable {cfg : Config} {events : List Event} {w : World} {polls earlier later : List RequestCall}
variable {c : RequestCall} {m : Message} {i : Nat}

/-- For every run in which the time stamps are positive and never decrease, and all polls of a
client in it: a message that is still among the last ones at the first poll after it has been
added is returned by one poll, or by none if its time stamp is the one the poll asks for. -/
theorem polls_return_once
    (hrun : runServer cfg events = .ok w)
    (hpositive : ∀ m ∈ messagesOf w.trace, 0 < m.time)
    (hsorted : (messagesOf w.trace).Pairwise fun m m' => m.time ≤ m'.time)
    (hpolls : polls.Sublist (requestCalls cfg events))
    (hcursor : FollowsCursor cfg.json 0 polls) (hsplit : polls = earlier ++ c :: later)
    (hm : (messagesOf w.trace)[i]? = some m) (hearlier : ∀ d ∈ earlier, d.added ≤ i)
    (hadded : i < c.added) (hkept : c.added ≤ i + Room.MAX_HISTORY) :
    (∀ d ∈ polls, d.returnedAt.map Prod.fst = d.returned ∧ d.Recalls cfg) ∧
      (polls.flatMap RequestCall.returnedAt).count (m, i) = if m.time = c.since then 0 else 1 := by
  obtain ⟨-, hcalls⟩ := recorded_runServer hrun
  refine ⟨fun d hd => ⟨returnedAt_fst d, (hcursor.asks hd).recalls⟩, ?_⟩
  have hrooms : ∀ d ∈ polls, RoomKept d.world := fun d hd => hcalls.kept d (hpolls.subset hd)
  have hbefore : ∀ d ∈ polls, messagesOf d.world.trace <+: messagesOf w.trace := fun d hd =>
    messagesOf_prefix (hcalls.before d (hpolls.subset hd))
  have hgrows : Polling.Grows (messagesOf w.trace).zipIdx [] (polls.map RequestCall.poll) :=
    grows_polls List.nil_prefix (fun _ _ => List.nil_prefix) hbefore
      (hcalls.inOrder.sublist hpolls)
  have hfollows := hcursor.follows hrooms
  have hstart : Polling.Between stamp 0 [] (messagesOf w.trace).zipIdx := by
    refine ⟨by simp, ?_⟩
    intro a ha
    exact (hpositive a.1 (List.fst_mem_of_mem_zipIdx ha)).le
  have hmem : (m, i) ∈ c.poll.log.rtake Room.MAX_HISTORY := by
    have hc : messagesOf c.world.trace <+: messagesOf w.trace := hbefore c (by simp [hsplit])
    obtain ⟨rest, hrest⟩ := hc
    rw [← hrest, List.getElem?_append_left hadded] at hm
    exact mem_rtake_zipIdx hm hkept
  have hothers : ∀ q ∈ earlier.map RequestCall.poll, (m, i) ∉ q.log := by
    intro q hq
    obtain ⟨d, hd, rfl⟩ := List.mem_map.mp hq
    exact not_mem_log (hearlier d hd)
  rw [flatMap_returnedAt hrooms]
  rw [hsplit, List.map_append, List.map_cons] at hgrows hfollows ⊢
  have hcap : 0 < Room.MAX_HISTORY := by
    decide
  have hnone : (m, i) ∉ ([] : List (Message × Nat)) := List.not_mem_nil
  exact Polling.count_returned hcap (sorted_zipIdx hsorted) (nodup_zipIdx _) hfollows
    (List.nil_append _).symm hstart hgrows hnone hothers hmem

/-- The first user asks for the messages behind the time stamp 1. -/
def asksBehindOne : Event :=
  arrive 5 (bytes "GET /api/messages?token=tok_0000000000000001&since=1 HTTP/1.1\r\n\r\n")

/-- The second user speaks at time 1 and again at a later time; the first user polls after
each message. -/
def pollsRun (later : Int) : List Event :=
  twoUsersRun ++ [otherSpeaks, asksHistory, .clock later, otherSpeaks, asksBehindOne]

/-- The polls among the requests of the run. -/
def pollsOf (later : Int) : List RequestCall :=
  (requestCalls twoUsersConfig (pollsRun later)).filter fun c => c.req.method = bytes "GET"

theorem pollsOf_sublist
    (later : Int) :
    (pollsOf later).Sublist (requestCalls twoUsersConfig (pollsRun later)) :=
  List.filter_sublist

/-- The client polls after each of two messages; this is what it gets. -/
def pollsTest (polls : List RequestCall) (later : Int) (returned : List (List (Int × Nat)))
    (w : World) : Bool :=
  (∀ m ∈ messagesOf w.trace, 0 < m.time) ∧
    ((messagesOf w.trace).Pairwise fun m m' => m.time ≤ m'.time) ∧
    FollowsCursor twoUsersConfig.json 0 polls ∧
    (messagesOf w.trace).map Message.time = [1, later] ∧
    polls.map RequestCall.added = [1, 2] ∧ polls.map RequestCall.since = [0, 1] ∧
    polls.map (fun c => c.returnedAt.map fun e => (e.1.time, e.2)) = returned

/-- A message with a time stamp of its own is returned by the next poll. -/
theorem polls_return_once_pollsRun :
    ∃ w m c₀ c, runServer twoUsersConfig (pollsRun 2) = .ok w ∧
      [c₀, c].Sublist (requestCalls twoUsersConfig (pollsRun 2)) ∧
      (messagesOf w.trace)[1]? = some m ∧
      ([c₀, c].flatMap RequestCall.returnedAt).count (m, 1) = 1 := by
  obtain ⟨w, hrun, hw⟩ := exists_ok_of_any (runServer twoUsersConfig (pollsRun 2))
    (pollsTest (pollsOf 2) 2 [[(1, 0)], [(2, 1)]]) (by decide +kernel)
  have hpolls := pollsOf_sublist 2
  generalize pollsOf 2 = polls at hw hpolls
  obtain ⟨hpositive, hsorted, hcursor, htimes, hadded, hsince, -⟩ := of_decide_eq_true hw
  obtain ⟨m₀, m, hmessages⟩ := List.length_eq_two.mp (by simpa using congrArg List.length htimes)
  obtain ⟨c₀, c, rfl⟩ := List.length_eq_two.mp (by simpa using congrArg List.length hadded)
  rw [hmessages] at htimes
  simp only [List.map_cons, List.map_nil, List.cons.injEq, and_true] at htimes hadded hsince
  have hm : (messagesOf w.trace)[1]? = some m := by
    rw [hmessages]
    rfl
  have hearlier : ∀ d ∈ [c₀], d.added ≤ 1 := by
    simp [hadded.1]
  have hnew : 1 < c.added := by
    rw [hadded.2]
    decide
  have hkept : c.added ≤ 1 + Room.MAX_HISTORY := by
    rw [hadded.2]
    decide
  have honce := (polls_return_once hrun hpositive hsorted hpolls hcursor
    (List.singleton_append).symm hm hearlier hnew hkept).2
  refine ⟨w, m, c₀, c, hrun, hpolls, hm, ?_⟩
  rw [honce, htimes.2, hsince.2]
  decide

/-- A message with the time stamp of the newest one that the client has is not returned. -/
theorem polls_miss_message :
    ∃ w m c₀ c, runServer twoUsersConfig (pollsRun 1) = .ok w ∧
      (∀ m ∈ messagesOf w.trace, 0 < m.time) ∧
      ((messagesOf w.trace).Pairwise fun m m' => m.time ≤ m'.time) ∧
      [c₀, c].Sublist (requestCalls twoUsersConfig (pollsRun 1)) ∧
      FollowsCursor twoUsersConfig.json 0 [c₀, c] ∧ (messagesOf w.trace)[1]? = some m ∧
      c₀.added ≤ 1 ∧ 1 < c.added ∧ c.added ≤ 1 + Room.MAX_HISTORY ∧
      ([c₀, c].flatMap RequestCall.returnedAt).count (m, 1) = 0 := by
  obtain ⟨w, hrun, hw⟩ := exists_ok_of_any (runServer twoUsersConfig (pollsRun 1))
    (pollsTest (pollsOf 1) 1 [[(1, 0)], []]) (by decide +kernel)
  have hpolls := pollsOf_sublist 1
  generalize pollsOf 1 = polls at hw hpolls
  obtain ⟨hpositive, hsorted, hcursor, htimes, hadded, -, hreturned⟩ := of_decide_eq_true hw
  obtain ⟨m₀, m, hmessages⟩ := List.length_eq_two.mp (by simpa using congrArg List.length htimes)
  obtain ⟨c₀, c, rfl⟩ := List.length_eq_two.mp (by simpa using congrArg List.length hadded)
  simp only [List.map_cons, List.map_nil, List.cons.injEq, and_true] at hadded hreturned
  refine ⟨w, m, c₀, c, hrun, hpositive, hsorted, hpolls, hcursor, ?_, ?_, ?_, ?_, ?_⟩
  · rw [hmessages]
    rfl
  · rw [hadded.1]
  · rw [hadded.2]
    decide
  · rw [hadded.2]
    decide
  · rw [List.count_eq_zero]
    intro hmem
    obtain ⟨d, hd, he⟩ := List.mem_flatMap.mp hmem
    have hposition := List.mem_map_of_mem (f := fun e : Message × Nat => (e.1.time, e.2)) he
    simp only [List.mem_cons, List.not_mem_nil, or_false] at hd
    rcases hd with rfl | rfl
    · simp [hreturned.1] at hposition
    · simp [hreturned.2] at hposition

end Once

end Web
end ChatRoom
