import ChatRoom.Web.Refinement

/-!
# The ledger of logins

What the history says about names and tokens: the token of the last login of a
name (`loginOf`), the name a token stands for (`nameOf`) and the tokens in the
order of their issue (`issued`).

The room and the token store agree with the ledger in every state
(`TokensAgree`).  As long as the counter has not wrapped, the tokens are those
of the numbers from one on (`TokensFresh`), and the store is a bijection onto the
room.
-/

namespace ChatRoom
namespace Web

open Runs

/-- The entries about logins and logouts. -/
def Obs.OfLedger : Obs → Bool
  | .login _ _ => true
  | .logout _ _ => true
  | _ => false

/-- What an entry says about the token of a name. -/
def Obs.loginOf (u : String) : Obs → Option (Option Bytes)
  | .login v tok => if v = u then some (some tok) else none
  | .logout v _ => if v = u then some none else none
  | _ => none

/-- What an entry says about the name of a token. -/
def Obs.nameOf (tok : Bytes) : Obs → Option String
  | .login u tok' => if tok' = tok then some u else none
  | .logout _ tok' => if tok' = tok then some "" else none
  | _ => none

/-- The token that an entry issues. -/
def Obs.issued? : Obs → Option Bytes
  | .login _ tok => some tok
  | _ => none

/-- The token of the last login of a name, unless the name has logged out since. -/
def loginOf (history : List Obs) (u : String) : Option Bytes :=
  (latest (Obs.loginOf u) history).join

/-- The name a token stands for; the empty string for a token that is not valid. -/
def nameOf (history : List Obs) (tok : Bytes) : String :=
  (latest (Obs.nameOf tok) history).getD ""

/-- The tokens in the order of their issue. -/
def issued (history : List Obs) : List Bytes :=
  history.filterMap Obs.issued?

section Histories

variable {history past future : List Obs} {u : String} {tok : Bytes}

@[simp] theorem loginOf_login
    (v : String) :
    loginOf (history ++ [.login v tok]) u = if v = u then some tok else loginOf history u := by
  by_cases hv : v = u <;> simp [loginOf, Obs.loginOf, hv]

@[simp] theorem loginOf_logout
    (v : String) :
    loginOf (history ++ [.logout v tok]) u = if v = u then none else loginOf history u := by
  by_cases hv : v = u <;> simp [loginOf, Obs.loginOf, hv]

@[simp] theorem nameOf_login
    (tok' : Bytes) :
    nameOf (history ++ [.login u tok']) tok = if tok' = tok then u else nameOf history tok := by
  by_cases htok : tok' = tok <;> simp [nameOf, Obs.nameOf, htok]

@[simp] theorem nameOf_logout
    (tok' : Bytes) :
    nameOf (history ++ [.logout u tok']) tok = if tok' = tok then "" else nameOf history tok := by
  by_cases htok : tok' = tok <;> simp [nameOf, Obs.nameOf, htok]

@[simp] theorem issued_login :
    issued (history ++ [.login u tok]) = issued history ++ [tok] := by
  simp [issued, Obs.issued?]

@[simp] theorem issued_logout :
    issued (history ++ [.logout u tok]) = issued history := by
  simp [issued, Obs.issued?]

/-- The ledger is written by logins and logouts alone. -/
theorem loginOf_filter
    {keep : Obs → Bool} (hkeep : ∀ o, o.OfLedger = true → keep o = true) :
    loginOf (history.filter keep) u = loginOf history u := by
  rw [loginOf, latest_filter, loginOf]
  intro o ho
  cases o with
  | login | logout =>
      rw [hkeep _ rfl] at ho
      cases ho
  | message | upgrade | adopt | response | text | wrote =>
      rfl

theorem nameOf_filter
    {keep : Obs → Bool} (hkeep : ∀ o, o.OfLedger = true → keep o = true) :
    nameOf (history.filter keep) tok = nameOf history tok := by
  rw [nameOf, latest_filter, nameOf]
  intro o ho
  cases o with
  | login | logout =>
      rw [hkeep _ rfl] at ho
      cases ho
  | message | upgrade | adopt | response | text | wrote =>
      rfl

theorem issued_filter
    {keep : Obs → Bool} (hkeep : ∀ o, o.OfLedger = true → keep o = true) :
    issued (history.filter keep) = issued history := by
  unfold issued
  rw [List.filterMap_filter]
  congr 1
  funext o
  cases o with
  | login | logout =>
      rw [if_pos (hkeep _ rfl)]
  | message | upgrade | adopt | response | text | wrote =>
      simp [Obs.issued?]

/-- A token stands for a name that was logged in with it. -/
theorem login_mem_of_nameOf
    (h : nameOf history tok = u) (hu : u ≠ "") :
    .login u tok ∈ history := by
  unfold nameOf at h
  cases hlatest : latest (Obs.nameOf tok) history with
  | none =>
      rw [hlatest] at h
      exact absurd h.symm hu
  | some v =>
      rw [hlatest, Option.getD_some] at h
      subst h
      obtain ⟨past, o, future, rfl, ho, -⟩ := latest_eq_some_iff.mp hlatest
      cases o with
      | login v' tok' =>
          simp only [Obs.nameOf, Option.ite_none_right_eq_some, Option.some.injEq] at ho
          obtain ⟨rfl, rfl⟩ := ho
          simp
      | logout v' tok' =>
          simp only [Obs.nameOf, Option.ite_none_right_eq_some, Option.some.injEq] at ho
          exact absurd ho.2.symm hu
      | message | upgrade | adopt | response | text | wrote =>
          cases ho

/-- A name that is logged in was logged in with its token, and has not logged out
since. -/
theorem split_of_loginOf
    (h : loginOf history u = some tok) :
    ∃ past future, history = past ++ .login u tok :: future ∧
      ∀ tok', .logout u tok' ∉ future := by
  unfold loginOf at h
  rw [Option.join_eq_some_iff] at h
  obtain ⟨past, o, future, rfl, ho, hfuture⟩ := latest_eq_some_iff.mp h
  cases o with
  | login v tok' =>
      simp only [Obs.loginOf, Option.ite_none_right_eq_some, Option.some.injEq] at ho
      obtain ⟨rfl, rfl⟩ := ho
      refine ⟨past, future, rfl, ?_⟩
      intro tok₂ hmem
      have := hfuture _ hmem
      simp [Obs.loginOf] at this
  | logout v tok' =>
      simp [Obs.loginOf] at ho
  | message | upgrade | adopt | response | text | wrote =>
      cases ho

/-- A name that has logged out and is logged in has logged in again. -/
theorem login_mem_of_logout
    {before after : List Obs} {tok' : Bytes}
    (h : loginOf (before ++ .logout u tok' :: after) u = some tok) :
    .login u tok ∈ after := by
  obtain ⟨past, future, hsplit, hnone⟩ := split_of_loginOf h
  rcases List.append_eq_append_iff.mp hsplit with ⟨middle, rfl, htail⟩ | ⟨middle, rfl, htail⟩
  · cases middle with
    | nil =>
        cases htail
    | cons o middle =>
        simp only [List.cons_append, List.cons.injEq] at htail
        rw [htail.2]
        simp
  · cases middle with
    | nil =>
        cases htail
    | cons o middle =>
        simp only [List.cons_append, List.cons.injEq] at htail
        exact absurd (by rw [htail.2]; simp) (hnone tok')

end Histories

section Agreement

variable {P : Sessions → WsId → Prop} {s s' : Sessions}

/-- Two states with the same users, tokens and logins. -/
structure SameTokens (s s' : Sessions) : Prop where
  users : s'.users = s.users
  tokens : s'.tokens = s.tokens
  ledger : s'.history.filter Obs.OfLedger = s.history.filter Obs.OfLedger

theorem SameTokens.loginOf
    (h : SameTokens s s') (u : String) :
    loginOf s'.history u = loginOf s.history u := by
  rw [← loginOf_filter (fun _ ho => ho), h.ledger,
    loginOf_filter (fun _ ho => ho)]

theorem SameTokens.nameOf
    (h : SameTokens s s') (tok : Bytes) :
    nameOf s'.history tok = nameOf s.history tok := by
  rw [← nameOf_filter (fun _ ho => ho), h.ledger,
    nameOf_filter (fun _ ho => ho)]

theorem SameTokens.issued
    (h : SameTokens s s') :
    issued s'.history = issued s.history := by
  rw [← issued_filter (fun _ ho => ho), h.ledger,
    issued_filter (fun _ ho => ho)]

/-- Of all actions, only login and logout touch the users and the tokens. -/
theorem Act.tokens_cases
    (h : Act P s s') :
    (∃ u, u ∉ s.users ∧ u ≠ "" ∧ s' = s.login u) ∨
      (∃ tok, s.tokens.lookup tok ≠ "" ∧ s' = s.logout tok) ∨ SameTokens s s' := by
  cases h with
  | talk htalk =>
      cases htalk with
      | login u hnew hname =>
          exact .inl ⟨u, hnew, hname, rfl⟩
      | logout tok hvalid =>
          exact .inr (.inl ⟨tok, hvalid, rfl⟩)
      | post | speak | upgrade =>
          refine .inr (.inr ⟨rfl, rfl, ?_⟩)
          simp [Sessions.say, Sessions.upgrade, List.filter_append, Obs.OfLedger]
  | handOver =>
      refine .inr (.inr ⟨rfl, rfl, ?_⟩)
      simp [Sessions.handOver, List.filter_append, Obs.OfLedger]
  | forget | closeHttp | closeWs | accept =>
      exact .inr (.inr ⟨rfl, rfl, rfl⟩)

/-- A token is valid if it stands for a name. -/
theorem lookup_ne_empty
    {tokens : TokenStore} {tok : Bytes} (h : tokens.lookup tok ≠ "") :
    tokens.tok2user.lookup tok = some (tokens.lookup tok) := by
  unfold TokenStore.lookup at h ⊢
  cases hlookup : tokens.tok2user.lookup tok with
  | none =>
      rw [hlookup] at h
      exact absurd rfl h
  | some u =>
      rfl

/-- The users are the names that are logged in, and a valid token is the token of
the last login of its name. -/
structure TokensAgree (s : Sessions) : Prop where
  online : ∀ u, u ∈ s.users ↔ (loginOf s.history u).isSome
  valid : ∀ tok u, s.tokens.tok2user.lookup tok = some u →
    u ≠ "" ∧ loginOf s.history u = some tok
  name : ∀ tok, s.tokens.lookup tok = nameOf s.history tok

theorem tokensAgree_init :
    TokensAgree World.init.sessions := by
  refine ⟨?_, ?_, fun _ => rfl⟩
  · intro u
    simp [World.init, World.sessions, Room.new, loginOf]
  · intro tok u h
    simp [World.init, World.sessions, TokenStore.new] at h

theorem TokensAgree.login
    (h : TokensAgree s) {u : String} (hnew : u ∉ s.users) (hname : u ≠ "") :
    TokensAgree (s.login u) := by
  have hnone : loginOf s.history u = none := by
    have := (h.online u).not.mp hnew
    simpa using this
  generalize htok : bytes (s.tokens.issue u).1 = tok
  have hstore : (s.login u).tokens.tok2user = s.tokens.tok2user.insert tok u := by
    rw [← htok]
    rfl
  have hhistory : (s.login u).history = s.history ++ [.login u tok] := by
    rw [← htok]
    rfl
  refine ⟨?_, ?_, ?_⟩
  · intro v
    rw [hhistory, loginOf_login]
    have honline := h.online v
    by_cases hv : u = v
    · subst hv
      simp [Sessions.login]
    · rw [if_neg hv, ← honline]
      simp [Sessions.login, Ne.symm hv]
  · intro tok' v hvalid
    rw [hhistory, loginOf_login]
    rw [hstore] at hvalid
    by_cases htok' : tok' = tok
    · subst htok'
      rw [AList.lookup_insert, Option.some.injEq] at hvalid
      subst hvalid
      exact ⟨hname, if_pos rfl⟩
    · rw [AList.lookup_insert_ne htok'] at hvalid
      obtain ⟨hv, hlogin⟩ := h.valid tok' v hvalid
      refine ⟨hv, ?_⟩
      rw [if_neg, hlogin]
      rintro rfl
      rw [hnone] at hlogin
      cases hlogin
  · intro tok'
    rw [hhistory, nameOf_login, TokenStore.lookup, hstore]
    by_cases htok' : tok' = tok
    · subst htok'
      simp
    · rw [AList.lookup_insert_ne htok', if_neg (Ne.symm htok')]
      exact h.name tok'

theorem TokensAgree.logout
    (h : TokensAgree s) {tok : Bytes} (hvalid : s.tokens.lookup tok ≠ "") :
    TokensAgree (s.logout tok) := by
  have hlookup := lookup_ne_empty hvalid
  generalize hu : s.tokens.lookup tok = u at hlookup
  have hlogin := (h.valid tok u hlookup).2
  have hhistory : (s.logout tok).history = s.history ++ [.logout u tok] := by
    rw [← hu]
    rfl
  have hstore : (s.logout tok).tokens.tok2user = s.tokens.tok2user.erase tok := rfl
  have husers : (s.logout tok).users = s.users.erase u := by
    rw [← hu]
    rfl
  refine ⟨?_, ?_, ?_⟩
  · intro v
    rw [hhistory, husers, loginOf_logout, UnorderedSet.mem_erase, h.online v]
    by_cases hv : u = v
    · simp [hv]
    · simp [hv, Ne.symm hv]
  · intro tok' v hvalid'
    rw [hstore] at hvalid'
    by_cases htok' : tok' = tok
    · subst htok'
      rw [AList.lookup_erase] at hvalid'
      cases hvalid'
    · rw [AList.lookup_erase_ne htok'] at hvalid'
      obtain ⟨hv, hlogin'⟩ := h.valid tok' v hvalid'
      refine ⟨hv, ?_⟩
      rw [hhistory, loginOf_logout, if_neg, hlogin']
      rintro rfl
      rw [hlogin, Option.some.injEq] at hlogin'
      exact htok' hlogin'.symm
  · intro tok'
    rw [hhistory, nameOf_logout, TokenStore.lookup, hstore]
    by_cases htok' : tok' = tok
    · subst htok'
      simp
    · rw [AList.lookup_erase_ne htok', if_neg (Ne.symm htok')]
      exact h.name tok'

theorem tokensAgree_act
    (hact : Act P s s') (h : TokensAgree s) :
    TokensAgree s' := by
  rcases hact.tokens_cases with ⟨u, hnew, hname, rfl⟩ | ⟨tok, hvalid, rfl⟩ | hsame
  · exact h.login hnew hname
  · exact h.logout hvalid
  · refine ⟨?_, ?_, ?_⟩
    · intro u
      rw [hsame.users, hsame.loginOf]
      exact h.online u
    · intro tok u hvalid
      rw [hsame.tokens] at hvalid
      rw [hsame.loginOf]
      exact h.valid tok u hvalid
    · intro tok
      rw [hsame.tokens, hsame.nameOf]
      exact h.name tok

end Agreement

section Freshness

variable {P : Sessions → WsId → Prop} {s s' : Sessions}

/-- The token of a number. -/
def tokenOf (n : Nat) : Bytes :=
  bytes (makeToken (UInt64.ofNat n))

theorem tokenOf_injOn :
    Set.InjOn tokenOf {n | n < 2 ^ 64} := by
  intro m hm n hn h
  have hcounter := makeToken_injective (bytes_injective h)
  have := congrArg UInt64.toNat hcounter
  simp only [UInt64.toNat_ofNat'] at this
  rwa [Nat.mod_eq_of_lt hm, Nat.mod_eq_of_lt hn] at this

/-- The tokens of the numbers from one on, as many as fit the counter, differ. -/
theorem nodup_tokens
    {n : Nat} (hn : n < 2 ^ 64) :
    ((List.range' 1 n).map tokenOf).Nodup := by
  refine List.Nodup.map_on ?_ List.nodup_range'
  intro a ha b hb hab
  rw [List.mem_range'_1] at ha hb
  exact tokenOf_injOn (show a < 2 ^ 64 by omega) (show b < 2 ^ 64 by omega) hab

/-- The tokens are those of the numbers from one on; unless the counter has
wrapped, every name that is logged in has its token. -/
structure TokensFresh (s : Sessions) : Prop where
  counter : s.tokens.counter = UInt64.ofNat (issued s.history).length
  inOrder : issued s.history = (List.range' 1 (issued s.history).length).map tokenOf
  complete : (issued s.history).length < 2 ^ 64 →
    ∀ u tok, loginOf s.history u = some tok → s.tokens.tok2user.lookup tok = some u

theorem tokensFresh_init :
    TokensFresh World.init.sessions := by
  refine ⟨rfl, rfl, ?_⟩
  intro _ u tok h
  simp [World.init, World.sessions, loginOf] at h

theorem TokensFresh.login
    (h : TokensFresh s) (u : String) :
    TokensFresh (s.login u) := by
  have htok : bytes (s.tokens.issue u).1 = tokenOf ((issued s.history).length + 1) := by
    simp [TokenStore.issue, tokenOf, h.counter]
  have hhistory : (s.login u).history =
      s.history ++ [.login u (tokenOf ((issued s.history).length + 1))] := by
    rw [← htok]
    rfl
  have hstore : (s.login u).tokens.tok2user =
      s.tokens.tok2user.insert (tokenOf ((issued s.history).length + 1)) u := by
    rw [← htok]
    rfl
  have horder : issued (s.login u).history =
      (List.range' 1 ((issued s.history).length + 1)).map tokenOf := by
    rw [hhistory, issued_login, List.range'_1_concat, List.map_append, ← h.inOrder, add_comm 1]
    rfl
  have hlength : (issued (s.login u).history).length = (issued s.history).length + 1 := by
    rw [horder]
    simp
  refine ⟨?_, ?_, ?_⟩
  · rw [hlength]
    simp [Sessions.login, TokenStore.issue, h.counter]
  · rw [hlength]
    exact horder
  · intro hfew v tok hlogin
    rw [hlength] at hfew
    rw [hhistory, loginOf_login] at hlogin
    rw [hstore]
    by_cases hv : u = v
    · rw [if_pos hv, Option.some.injEq] at hlogin
      rw [← hlogin, AList.lookup_insert, hv]
    · rw [if_neg hv] at hlogin
      have hlookup := h.complete (by omega) v tok hlogin
      -- the new token has not been issued before
      have hmem : tok ∈ issued s.history := by
        obtain ⟨past, future, hsplit, -⟩ := split_of_loginOf hlogin
        rw [hsplit]
        simp [issued, Obs.issued?]
      have hne : tok ≠ tokenOf ((issued s.history).length + 1) := by
        rintro rfl
        have hnodup := nodup_tokens hfew
        rw [List.range'_1_concat, List.map_append, ← h.inOrder, List.nodup_append] at hnodup
        exact hnodup.2.2 _ hmem _ (by simp [add_comm]) rfl
      rw [AList.lookup_insert_ne hne]
      exact hlookup

theorem TokensFresh.logout
    (h : TokensFresh s) {tok : Bytes} (hvalid : s.tokens.lookup tok ≠ "") :
    TokensFresh (s.logout tok) := by
  have hlookup := lookup_ne_empty hvalid
  have hhistory : (s.logout tok).history =
      s.history ++ [.logout (s.tokens.lookup tok) tok] := rfl
  have hissued : issued (s.logout tok).history = issued s.history := by
    rw [hhistory, issued_logout]
  refine ⟨?_, ?_, ?_⟩
  · rw [hissued]
    exact h.counter
  · rw [hissued]
    exact h.inOrder
  · intro hfew v tok' hlogin
    rw [hissued] at hfew
    rw [hhistory, loginOf_logout] at hlogin
    by_cases hv : s.tokens.lookup tok = v
    · rw [if_pos hv] at hlogin
      cases hlogin
    · rw [if_neg hv] at hlogin
      have hlookup' := h.complete hfew v tok' hlogin
      have hne : tok' ≠ tok := by
        rintro rfl
        rw [hlookup, Option.some.injEq] at hlookup'
        exact hv hlookup'
      show (s.tokens.tok2user.erase tok).lookup tok' = some v
      rw [AList.lookup_erase_ne hne]
      exact hlookup'

theorem tokensFresh_act
    (hact : Act P s s') (h : TokensFresh s) :
    TokensFresh s' := by
  rcases hact.tokens_cases with ⟨u, -, -, rfl⟩ | ⟨tok, hvalid, rfl⟩ | hsame
  · exact h.login u
  · exact h.logout hvalid
  · refine ⟨?_, ?_, ?_⟩
    · rw [hsame.tokens, hsame.issued]
      exact h.counter
    · rw [hsame.issued]
      exact h.inOrder
    · rw [hsame.issued]
      intro hfew u tok hlogin
      rw [hsame.loginOf] at hlogin
      rw [hsame.tokens]
      exact h.complete hfew u tok hlogin

end Freshness

section Bijection

variable {cfg : Config} {w : World}

theorem tokensAgree_runServer
    {events : List Event} (hrun : runServer cfg events = .ok w) :
    TokensAgree w.sessions :=
  runServer_invariant tokensAgree_init (fun _ _ => tokensAgree_act) hrun

theorem tokensFresh_runServer
    {events : List Event} (hrun : runServer cfg events = .ok w) :
    TokensFresh w.sessions :=
  runServer_invariant tokensFresh_init (fun _ _ => tokensFresh_act) hrun

/-- The history of the sessions keeps the whole ledger. -/
theorem ofSession_of_ofLedger
    (o : Obs) (h : o.OfLedger = true) :
    o.OfSession = true := by
  cases o with
  | login | logout =>
      rfl
  | message | upgrade | adopt | response | text | wrote =>
      cases h

/-- The valid tokens are in bijection with the users of the room, and no token is
issued twice. -/
theorem tokens_biject_users
    {events : List Event} (hrun : runServer cfg events = .ok w)
    (hfew : (issued w.trace).length < 2 ^ 64) :
    Set.BijOn w.tokens.lookup {tok | tok ∈ w.tokens.tok2user} {u | u ∈ w.room.users} ∧
      (∀ u ∈ w.room.users, ∃! tok, w.tokens.tok2user.lookup tok = some u) ∧
        (issued w.trace).Nodup := by
  have hagree := tokensAgree_runServer hrun
  have hfresh := tokensFresh_runServer hrun
  have hissued : issued w.sessions.history = issued w.trace :=
    issued_filter ofSession_of_ofLedger
  have hvalid (tok : Bytes) (hmem : tok ∈ w.tokens.tok2user) :
      w.tokens.tok2user.lookup tok = some (w.tokens.lookup tok) := by
    obtain ⟨u, hu⟩ := Option.isSome_iff_exists.mp (AList.lookup_isSome.mpr hmem)
    rw [TokenStore.lookup, hu, Option.getD_some]
  have honline (tok : Bytes) (u : String) (h : w.tokens.tok2user.lookup tok = some u) :
      u ∈ w.room.users := by
    rw [show w.room.users = w.sessions.users from rfl, hagree.online,
      (hagree.valid tok u h).2]
    rfl
  have hunique (tok tok' : Bytes) (u : String) (h : w.tokens.tok2user.lookup tok = some u)
      (h' : w.tokens.tok2user.lookup tok' = some u) :
      tok = tok' := by
    have hlogin := (hagree.valid tok u h).2
    rw [(hagree.valid tok' u h').2, Option.some.injEq] at hlogin
    exact hlogin.symm
  have hhas (u : String) (hu : u ∈ w.room.users) :
      ∃ tok, w.tokens.tok2user.lookup tok = some u := by
    obtain ⟨tok, hlogin⟩ := Option.isSome_iff_exists.mp ((hagree.online u).mp hu)
    exact ⟨tok, hfresh.complete (hissued ▸ hfew) u tok hlogin⟩
  refine ⟨⟨?_, ?_, ?_⟩, ?_, ?_⟩
  · intro tok hmem
    exact honline tok _ (hvalid tok hmem)
  · intro tok hmem tok' hmem' heq
    have h' := hvalid tok' hmem'
    rw [← heq] at h'
    exact hunique tok tok' _ (hvalid tok hmem) h'
  · intro u hu
    obtain ⟨tok, htok⟩ := hhas u hu
    refine ⟨tok, ?_, ?_⟩
    · show tok ∈ w.tokens.tok2user
      rw [← AList.lookup_isSome, htok]
      rfl
    · rw [TokenStore.lookup, htok, Option.getD_some]
  · intro u hu
    obtain ⟨tok, htok⟩ := hhas u hu
    exact ⟨tok, htok, fun tok' htok' => hunique tok' tok u htok' htok⟩
  · rw [← hissued, hfresh.inOrder]
    exact nodup_tokens (hissued ▸ hfew)

/-- Bytes that arrive on a socket. -/
def arrive (fd : Fd) (bs : Bytes) : Event :=
  .ready fd { input := true, output := false, failure := false }
    { pending := bs, sizes := [], idle := .again } []

def loginBody : Bytes :=
  bytes "\x7b\"username\":\"a\"\x7d"

def chatBody : Bytes :=
  bytes "\x7b\"type\":\"chat\",\"content\":\"hi\"\x7d"

/-- A server whose JSON library knows the documents of the runs below. -/
def sampleConfig : Config where
  json := JsonLib.ofTable
    [(loginBody, .obj [("username", .str "a")]),
      (chatBody, .obj [("type", .str "chat"), ("content", .str "hi")])]
  webroot := bytes "src/frontend"
  configured := true

/-- A client logs in. -/
def loginRun : List Event :=
  [.accept 5,
    arrive 5 (bytes "POST /api/login HTTP/1.1\r\nContent-Length: 16\r\n\r\n" ++ loginBody)]

def otherLoginBody : Bytes :=
  bytes "\x7b\"username\":\"b\"\x7d"

/-- A server whose JSON library knows the documents of the runs below. -/
def twoUsersConfig : Config where
  json := JsonLib.ofTable
    [(loginBody, .obj [("username", .str "a")]), (otherLoginBody, .obj [("username", .str "b")]),
      (chatBody, .obj [("type", .str "chat"), ("content", .str "hi")])]
  webroot := bytes "src/frontend"
  configured := true

/-- Two users log in. -/
def twoUsersRun : List Event :=
  [.clock 1, .accept 5,
    arrive 5 (bytes "POST /api/login HTTP/1.1\r\nContent-Length: 16\r\n\r\n" ++ loginBody),
    .accept 6,
    arrive 6 (bytes "POST /api/login HTTP/1.1\r\nContent-Length: 16\r\n\r\n" ++ otherLoginBody)]

theorem tokens_biject_users_twoUsersRun :
    ∃ w, runServer twoUsersConfig twoUsersRun = .ok w ∧
      "a" ∈ w.room.users ∧ "b" ∈ w.room.users ∧ (issued w.trace).length = 2 ∧
      Set.BijOn w.tokens.lookup {tok | tok ∈ w.tokens.tok2user} {u | u ∈ w.room.users} ∧
        (∀ u ∈ w.room.users, ∃! tok, w.tokens.tok2user.lookup tok = some u) ∧
          (issued w.trace).Nodup := by
  obtain ⟨w, hrun, hw⟩ := exists_ok_of_any
    (runServer twoUsersConfig twoUsersRun)
    (fun w => "a" ∈ w.room.users ∧ "b" ∈ w.room.users ∧ (issued w.trace).length = 2)
    (by decide +kernel)
  obtain ⟨ha, hb, htwo⟩ := of_decide_eq_true hw
  exact ⟨w, hrun, ha, hb, htwo, tokens_biject_users hrun (by rw [htwo]; decide)⟩

end Bijection

end Web
end ChatRoom
