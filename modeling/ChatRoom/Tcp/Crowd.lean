import ChatRoom.Tcp.PacketLimit
import ChatRoom.Tcp.Survival

/-!
# Users who log in one after the other

Each user connects and sends a login that fits the read buffer of a connection.  The server
should accept them all, however many there are, and send the one who has just come the list
of all users (`crowd_logs_in`).

Nothing limits the list.  So the packets that come in may be short, and still the list of a
crowd whose names are long enough together cannot be decoded (`crowd_listed_over_limit`).
-/

namespace ChatRoom
namespace Tcp

open Incremental Runs Socket

/-- The packet with which a user logs in. -/
def loginOf (username : String) : Packet where
  type := MessageType.MSG_LOGIN.code
  body := (loginDocument username).dump

/-- The packet of a login arrives, in one piece. -/
def loginInput (username : String) : Input where
  pending := encode (loginOf username)
  sizes := []
  idle := .again

/-- The users connect on one descriptor after the other, and each one logs in. -/
def crowd : Fd → List String → List Event
  | _, [] => []
  | fd, username :: usernames =>
      .accept fd ::
        .ready fd { input := true, output := false, failure := false } (loginInput username) [] ::
          crowd (fd + 1) usernames

/-- A user can log in under the name with a packet that the read buffer takes. -/
structure Usable (J : JsonLib) (username : String) : Prop where
  nonempty : username ≠ ""
  parsed : J.parse (loginOf username).body = some (loginDocument username)
  fits : (encode (loginOf username)).length ≤ Buffer.INITIAL_SIZE

section Login

variable {J : JsonLib} {username : String} {w w' : Chat} {c : ConnId}

theorem Usable.decode
    (hu : Usable J username) :
    decode (encode (loginOf username)) =
      { consumed := (encode (loginOf username)).length
        packet := loginOf username
        ok := true } := by
  have hfits := hu.fits
  have hbody : (loginOf username).body.length ≤ MAX_BODY_LENGTH - 1 := by
    rw [length_encode] at hfits
    simp only [Buffer.INITIAL_SIZE, MAX_BODY_LENGTH] at *
    omega
  exact (decodable_iff.mpr hbody).2

/-- The decode loop takes the login off the buffer, and ends. -/
theorem Usable.decodeLoop
    (hu : Usable J username)
    (hread : (w.conns c).readBuf.readable = encode (loginOf username))
    (hstate : (w.conns c).state ≠ .AUTHENTICATED) (hnew : username ∉ w.env.users) :
    ∃ w', decodeLoop (callbacks J) c (w.conns c).readBuf.readableBytes w = .ok w' ∧
      w'.env.users = w.env.users.insert username c ∧ w'.openFds = w.openFds ∧
        Obs.sent c (userListPacket J w') ∈ w'.trace := by
  have hlen : (w.conns c).readBuf.readableBytes = (encode (loginOf username)).length := by
    rw [← Buffer.length_readable, hread]
  obtain ⟨fuel, hfuel⟩ : ∃ fuel, (encode (loginOf username)).length = fuel + 1 := by
    rw [length_encode]
    exact ⟨_, rfl⟩
  have hlogs : LogsInAs J ((consume w c (fuel + 1)).note (.packet c (loginOf username))) c
      (loginOf username) username := by
    refine ⟨?_, hu.nonempty, hnew, loginDocument username, hu.parsed, rfl⟩
    simpa [consume, World.setConn, World.note] using hstate
  obtain ⟨w', hok, hout⟩ := handleLogin_accepts hlogs
  have hempty : (w'.conns c).readBuf.readableBytes = 0 := by
    rw [hout.conns c]
    simp [loggedIn, setUsername, World.setConn, World.note, World.setUsers, consume,
      Buffer.readableBytes_consume, hlen, hfuel]
  have husers : w'.env.users = w.env.users.insert username c := by
    rw [hout.env]
    rfl
  refine ⟨w', ?_, husers, hout.openFds, ?_⟩
  · have hpacket : handlePacket (callbacks J) (consume w c (fuel + 1)) c (loginOf username) =
        .ok w' := hok
    rw [hlen, hfuel, Tcp.decodeLoop, if_pos (by omega), hread, hu.decode]
    dsimp only
    rw [if_pos rfl, Int.toNat_natCast, hfuel, hpacket]
    show Tcp.decodeLoop (callbacks J) c fuel w' = .ok w'
    cases fuel with
    | zero =>
        rfl
    | succ fuel =>
        rw [Tcp.decodeLoop, if_neg (by omega)]
  · have hlist : userListPacket J w' =
        userListPacket J (loggedIn ((consume w c (fuel + 1)).note
          (.packet c (loginOf username))) c username) := by
      rw [userListPacket, userListPacket, UserManager.usernames, UserManager.usernames, hout.env]
    have hrecipient : c ∈ recipients (w.env.users.insert username c) := by
      rw [recipients, AList.entries_insert]
      exact List.mem_cons_self
    rw [hout.trace, hlist]
    refine List.mem_append_right _ (List.mem_map.mpr ⟨(c, _), ?_, rfl⟩)
    refine List.mem_cons_of_mem _ (List.mem_append_right _ ?_)
    exact List.mem_map_of_mem hrecipient

/-- A new connection logs in. -/
theorem Usable.onRead
    (hu : Usable J username) (hnewBuf : (w.conns c).readBuf = Buffer.new)
    (hstate : (w.conns c).state ≠ .AUTHENTICATED) (hnew : username ∉ w.env.users) :
    ∃ w', onRead (callbacks J) w c (loginInput username) = .ok w' ∧
      w'.env.users = w.env.users.insert username c ∧ w'.openFds = w.openFds ∧
        Obs.sent c (userListPacket J w') ∈ w'.trace := by
  have hroom : (w.conns c).readBuf.writableBytes = Buffer.INITIAL_SIZE := by
    rw [hnewBuf, Buffer.writableBytes, Buffer.length_buf_new]
    rfl
  have hfits : (loginInput username).pending.length ≤ (w.conns c).readBuf.writableBytes := by
    rw [hroom]
    exact hu.fits
  obtain ⟨hend, hread, -, -⟩ := recvLoop_fits w.now (w.conns c) (s := loginInput username) rfl
    (Nat.lt_succ_self _) hfits
  have hquiet := quiet_recvLoop w c ((loginInput username).pending.length + 1)
    (loginInput username)
  rw [Tcp.onRead]
  generalize recvLoop w.now ((loginInput username).pending.length + 1) (w.conns c)
    (loginInput username) = received at hend hread hquiet ⊢
  obtain ⟨conn, ending⟩ := received
  dsimp only at hend hread hquiet ⊢
  subst hend
  have hconn : (w.setConn c conn).conns c = conn := Function.update_self _ _ _
  have hstate' : ((w.setConn c conn).conns c).state ≠ .AUTHENTICATED := by
    rwa [hquiet.state]
  have hread' : ((w.setConn c conn).conns c).readBuf.readable = encode (loginOf username) := by
    rw [hconn, hread, hnewBuf, Buffer.readable_new]
    rfl
  have hloop := hu.decodeLoop hread' hstate' hnew
  rwa [hconn] at hloop

/-- A user connects and logs in. -/
theorem Usable.step
    (hu : Usable J username) (hw : Intact w) {fd : Fd} (hclosed : w.openFds fd = false)
    (hnew : username ∉ w.env.users) :
    ∃ w', run (step J) w (crowd fd [username]) = .ok w' ∧ Intact w' ∧
      (∃ c, w'.env.users = w.env.users.insert username c ∧
        Obs.sent c (userListPacket J w') ∈ w'.trace) ∧
      w'.openFds = Function.update w.openFds fd true := by
  obtain ⟨w₁, haccept⟩ := exists_accept hw.wired hw.listed hclosed
  have hacc := accept_accepts haccept
  have hstep₁ : Tcp.step J w (.accept fd) = .ok w₁ := by
    rw [Tcp.step, hclosed]
    exact haccept
  have hconn : w₁.conns w.allocated = Connection.new fd w.now := by
    rw [hacc.conns, Function.update_self]
  have hbuf : (w₁.conns w.allocated).readBuf = Buffer.new := by
    rw [hconn]
    rfl
  have hstate : (w₁.conns w.allocated).state ≠ .AUTHENTICATED := by
    rw [hconn]
    intro h
    cases h
  have hnew₁ : username ∉ w₁.env.users := by
    rwa [hacc.users]
  obtain ⟨w', hread, husers, hopen, hsent⟩ := hu.onRead hbuf hstate hnew₁
  have hstep₂ : Tcp.step J w₁ (.ready fd { input := true, output := false, failure := false }
      (loginInput username) []) = .ok w' := by
    rw [Tcp.step, handleEvent, hacc.contexts, Function.update_self]
    dsimp only
    rw [if_neg Bool.false_ne_true, if_pos rfl, hread]
    rfl
  refine ⟨w', ?_, (hw.step hstep₁).step hstep₂, ⟨w.allocated, ?_, hsent⟩, ?_⟩
  · exact run_cons.mpr ⟨w₁, hstep₁, run_cons.mpr ⟨w', hstep₂, rfl⟩⟩
  · rw [husers, hacc.users]
  · rw [hopen, hacc.openFds]

end Login

section Crowd

variable {J : JsonLib} {usernames : List String}

theorem crowd_cons
    (fd : Fd) (username : String) (usernames : List String) :
    crowd fd (username :: usernames) = crowd fd [username] ++ crowd (fd + 1) usernames := by
  rfl

/-- Users come to a server that goes on. -/
theorem crowd_run
    {w : Chat} (hw : Intact w) (fd : Fd) (hclosed : ∀ fd', fd ≤ fd' → w.openFds fd' = false)
    (husable : ∀ username ∈ usernames, Usable J username) (hnodup : usernames.Nodup)
    (hnew : ∀ username ∈ usernames, username ∉ w.env.users) :
    ∃ w', run (step J) w (crowd fd usernames) = .ok w' ∧
      w'.env.users.keys = usernames.reverse ++ w.env.users.keys ∧
        (usernames ≠ [] → ∃ c, Obs.sent c (userListPacket J w') ∈ w'.trace) := by
  induction usernames generalizing w fd with
  | nil =>
      exact ⟨w, rfl, rfl, fun h => absurd rfl h⟩
  | cons username usernames ih =>
      obtain ⟨hfresh, hnodup'⟩ := List.nodup_cons.mp hnodup
      have hfree := hnew username List.mem_cons_self
      obtain ⟨w₁, hrun₁, hw₁, ⟨c, husers, hsent⟩, hopen⟩ :=
        (husable username List.mem_cons_self).step hw (hclosed fd le_rfl) hfree
      have hclosed₁ : ∀ fd', fd + 1 ≤ fd' → w₁.openFds fd' = false := by
        intro fd' hle
        rw [hopen, Function.update_of_ne (Nat.ne_of_gt hle)]
        exact hclosed fd' (Nat.le_of_succ_le hle)
      have hnew₁ : ∀ name ∈ usernames, name ∉ w₁.env.users := by
        intro name hname hmem
        rw [husers, AList.mem_insert] at hmem
        rcases hmem with rfl | hmem
        · exact hfresh hname
        · exact hnew name (List.mem_cons_of_mem _ hname) hmem
      obtain ⟨w', hrun', hkeys, hlist⟩ := ih hw₁ (fd + 1) hclosed₁
        (fun name hname => husable name (List.mem_cons_of_mem _ hname)) hnodup' hnew₁
      refine ⟨w', ?_, ?_, fun _ => ?_⟩
      · rw [crowd_cons]
        exact run_append.mpr ⟨w₁, hrun₁, hrun'⟩
      · have hinsert : w₁.env.users.keys = username :: w.env.users.keys := by
          rw [husers, AList.keys, AList.entries_insert_of_notMem hfree]
          rfl
        rw [hkeys, hinsert, List.reverse_cons, List.append_assoc]
        rfl
      · cases usernames with
        | nil =>
            cases hrun'
            exact ⟨c, hsent⟩
        | cons =>
            exact hlist (List.cons_ne_nil _ _)

/-- Any number of users can log in, one after the other, and the last one is sent the list of
all of them. -/
theorem crowd_logs_in
    (husable : ∀ username ∈ usernames, Usable J username) (hnodup : usernames.Nodup) :
    ∃ w, runServer J (crowd 0 usernames) = .ok w ∧ w.env.users.keys = usernames.reverse ∧
      (usernames ≠ [] → ∃ c, Obs.sent c (userListPacket J w) ∈ w.trace) := by
  obtain ⟨w, hrun, hkeys, hlist⟩ := crowd_run intact_initial 0 (fun _ _ => rfl) husable
    hnodup fun username _ => AList.notMem_empty username
  exact ⟨w, hrun, hkeys.trans (List.append_nil _), hlist⟩

theorem userListLength_reverse
    (names : List String) :
    userListLength names.reverse = userListLength names := by
  rw [userListLength, List.map_reverse, List.sum_reverse, List.length_reverse, userListLength]

/-- If the names of a crowd are long enough together, a list is sent that cannot be decoded,
although each login fits the read buffer. -/
theorem crowd_listed_over_limit
    (hdump : ∀ j : Json, j.Flat → J.dump j = j.dump)
    (husable : ∀ username ∈ usernames, Usable J username) (hnodup : usernames.Nodup)
    (hlong : MAX_BODY_LENGTH - 1 < userListLength usernames) :
    ∃ w, runServer J (crowd 0 usernames) = .ok w ∧
      ∃ c pkt, Obs.sent c pkt ∈ w.trace ∧ ¬ Decodable pkt := by
  obtain ⟨w, hrun, hkeys, hlist⟩ := crowd_logs_in husable hnodup
  have hsome : usernames ≠ [] := by
    rintro rfl
    exact absurd hlong (by decide)
  obtain ⟨c, hsent⟩ := hlist hsome
  refine ⟨w, hrun, c, userListPacket J w, hsent, ?_⟩
  rw [userListPacket_decodable_iff hdump, hkeys, userListLength_reverse]
  exact Nat.not_le.mpr hlong

end Crowd

section Letters

/-- Names of 900 letters and more. -/
def letterNames (count : Nat) : List String :=
  (List.range count).map fun i => letters (900 + i)

/-- The library knows the logins of these users. -/
def crowdJson (usernames : List String) : JsonLib :=
  JsonLib.ofTable (usernames.map fun username =>
    ((loginOf username).body, loginDocument username))

theorem length_loginOf_letters
    (n : Nat) :
    (loginOf (letters n)).body.length = n + 15 := by
  rw [loginOf, length_dump_loginDocument, dumpedLength_letters]
  omega

theorem crowdJson_parse
    {usernames : List String} {username : String} (hmem : username ∈ usernames)
    (hbody : ∀ name ∈ usernames, (loginOf username).body = (loginOf name).body →
      username = name) :
    (crowdJson usernames).parse (loginOf username).body = some (loginDocument username) := by
  show List.lookup _ (usernames.map _) = _
  induction usernames with
  | nil =>
      cases hmem
  | cons name names ih =>
      rw [List.map_cons, List.lookup_cons]
      by_cases hsame : (loginOf username).body = (loginOf name).body
      · rw [hbody name List.mem_cons_self hsame]
        simp
      · have hne : username ≠ name := fun h => hsame (by rw [h])
        rw [beq_false_of_ne hsame]
        exact ih ((List.mem_cons.mp hmem).resolve_left hne)
          fun other hother => hbody other (List.mem_cons_of_mem _ hother)

/-- The user list of 75 users with such names is over the limit, and what each of them sends
fits a read buffer. -/
theorem letterNames_listed_over_limit :
    (∀ username ∈ letterNames 75,
      (encode (loginOf username)).length ≤ Buffer.INITIAL_SIZE) ∧
    ∃ w, runServer (crowdJson (letterNames 75)) (crowd 0 (letterNames 75)) = .ok w ∧
      ∃ c pkt, Obs.sent c pkt ∈ w.trace ∧ ¬ Decodable pkt := by
  have hletters (m n : Nat) (h : (loginOf (letters m)).body = (loginOf (letters n)).body) :
      letters m = letters n := by
    have hlength := congrArg List.length h
    rw [length_loginOf_letters, length_loginOf_letters] at hlength
    rw [Nat.add_right_cancel hlength]
  have husable : ∀ username ∈ letterNames 75, Usable (crowdJson (letterNames 75)) username := by
    intro username hmem
    obtain ⟨i, hi, rfl⟩ := List.mem_map.mp hmem
    rw [List.mem_range] at hi
    refine ⟨?_, ?_, ?_⟩
    · intro hempty
      have hbytes := bytes_letters (900 + i)
      rw [hempty, Nat.add_comm] at hbytes
      cases hbytes
    · apply crowdJson_parse hmem
      intro name hname
      obtain ⟨j, -, rfl⟩ := List.mem_map.mp hname
      exact hletters _ _
    · rw [length_encode, length_loginOf_letters]
      simp only [HEADER_SIZE, TYPE_SIZE, Buffer.INITIAL_SIZE]
      omega
  have hnodup : (letterNames 75).Nodup := by
    refine List.Nodup.map ?_ List.nodup_range
    intro i j h
    have hlength := congrArg (fun name => (bytes name).length) h
    simpa [bytes_letters] using hlength
  have hlong : MAX_BODY_LENGTH - 1 < userListLength (letterNames 75) := by
    rw [userListLength, letterNames, List.map_map]
    simp only [Function.comp_def, dumpedLength_letters]
    decide
  exact ⟨fun username hmem => (husable username hmem).fits,
    crowd_listed_over_limit (fun _ _ => rfl) husable hnodup hlong⟩

end Letters

end Tcp
end ChatRoom
