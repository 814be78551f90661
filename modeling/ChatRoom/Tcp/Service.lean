import ChatRoom.Lib.Audience
import ChatRoom.Tcp.Connection

/-!
# The chat service

What the TCP server is for, without bytes, buffers, descriptors and documents.
Connections ask for something (`Request`) or are gone, and the service puts notices
into inboxes.  Two things are left open: what time it is, and in which order the names
of the members are listed.

`Service.Reached` says which inboxes a sequence of occurrences leads to, and
`Service.Sound` what the users may rely on in all of them.
-/

namespace ChatRoom
namespace Tcp

/-- A chat message as it is passed on. -/
structure Utterance where
  from_ : String
  content : String
  now : Int

/-- What a connection asks for; `none` is a document that cannot be read. -/
inductive Request where
  | login (name : Option String)
  | chat (content : Option String)
  | tell (message : Option (String × String))
  | list
  | ping
  | silent

/-- Requests that only members may make. -/
def Request.ForMembers : Request → Prop
  | .chat _ => True
  | .tell _ => True
  | _ => False

/-- Requests of members that are dropped. -/
def Request.Empty : Request → Prop
  | .chat none => True
  | .chat (some content) => content = ""
  | .tell none => True
  | _ => False

/-- What a connection is sent. -/
inductive Notice where
  | accepted
  | refused (reason : String)
  | system (text : String) (now : Int)
  | users (names : List String)
  | chat (u : Utterance)
  | told (from_ to_ content : String)
  | pong

/-- Who is logged in under which name, what everybody has been sent, and, as a history,
what has been said in public. -/
structure Service where
  members : ConnId → Option String
  inbox : ConnId → List Notice
  audience : Audience ConnId Utterance

namespace Service

def empty : Service where
  members _ := none
  inbox _ := []
  audience := .empty

/-- Put a notice into an inbox. -/
def post (s : Service) (c : ConnId) (n : Notice) : Service :=
  { s with inbox := Function.update s.inbox c (s.inbox c ++ [n]) }

/-- Tell all members who has come or gone, and who is there now. -/
def announce (s : Service) (text : String) (now : Int) (names : List String) : Service :=
  { s with
    inbox := fun d =>
      if (s.members d).isSome then s.inbox d ++ [.system text now, .users names] else s.inbox d }

def enter (s : Service) (c : ConnId) (name : String) : Service :=
  { s with
    members := Function.update s.members c (some name)
    audience := s.audience.join c }

def part (s : Service) (c : ConnId) : Service :=
  { s with
    members := Function.update s.members c none
    audience := s.audience.leave c }

/-- All other members get the message. -/
def say (s : Service) (c : ConnId) (u : Utterance) : Service :=
  { s with
    inbox := fun d =>
      if (s.members d).isSome ∧ d ≠ c then s.inbox d ++ [.chat u] else s.inbox d
    audience := s.audience.say c u }

/-- The names of the members, each once, in any order. -/
def Lists (s : Service) (names : List String) : Prop :=
  names.Nodup ∧ ∀ name, name ∈ names ↔ ∃ d, s.members d = some name

/-- The service does what a connection asks for, or refuses it. -/
inductive Reacts (s : Service) (c : ConnId) : Request → Service → Prop where
  | alreadyIn {name : Option String} (hin : (s.members c).isSome) :
      Reacts s c (.login name) (s.post c (.refused "已登录"))
  | unreadable (hout : s.members c = none) :
      Reacts s c (.login none) (s.post c (.refused "消息格式错误"))
  | nameless (hout : s.members c = none) :
      Reacts s c (.login (some "")) (s.post c (.refused "用户名不能为空"))
  | taken {name : String} {d : ConnId} (hout : s.members c = none) (hne : name ≠ "")
      (htaken : s.members d = some name) :
      Reacts s c (.login (some name)) (s.post c (.refused "用户名已存在"))
  | joins {name : String} (now : Int) {names : List String} (hout : s.members c = none)
      (hne : name ≠ "") (hfree : ∀ d, s.members d ≠ some name)
      (hnames : (s.enter c name).Lists names) :
      Reacts s c (.login (some name))
        (((s.enter c name).post c .accepted).announce (name ++ "上线") now names)
  | stranger {r : Request} (hout : s.members c = none) (hr : r.ForMembers) :
      Reacts s c r (s.post c (.refused "未登录"))
  | drops {r : Request} (hin : (s.members c).isSome) (hr : r.Empty) :
      Reacts s c r s
  | speaks {name content : String} (now : Int) (hin : s.members c = some name)
      (hne : content ≠ "") :
      Reacts s c (.chat (some content)) (s.say c { from_ := name, content := content, now := now })
  | tells {name to_ content : String} {d : ConnId} (hin : s.members c = some name)
      (hto : s.members d = some to_) :
      Reacts s c (.tell (some (to_, content))) (s.post d (.told name to_ content))
  | nobody {to_ content : String} (hin : (s.members c).isSome)
      (hto : ∀ d, s.members d ≠ some to_) :
      Reacts s c (.tell (some (to_, content))) (s.post c (.refused "对象用户不存在"))
  | lists {names : List String} (hnames : s.Lists names) :
      Reacts s c .list (s.post c (.users names))
  | pongs :
      Reacts s c .ping (s.post c .pong)
  | silent :
      Reacts s c .silent s

/-- A connection is gone; if it was a member the others are told. -/
inductive Loses (s : Service) (c : ConnId) : Service → Prop where
  | stranger (hout : s.members c = none) :
      Loses s c s
  | member {name : String} (now : Int) {names : List String} (hin : s.members c = some name)
      (hnames : (s.part c).Lists names) :
      Loses s c ((s.part c).announce (name ++ "离线") now names)

end Service

/-- What happens to the service. -/
inductive Occurrence where
  | request (c : ConnId) (r : Request)
  | gone (c : ConnId)

namespace Service

/-- The service may be in this state when this has happened to it. -/
inductive Reached : List Occurrence → Service → Prop where
  | start : Reached [] empty
  | request {past : List Occurrence} {s s' : Service} {c : ConnId} {r : Request}
      (h : Reached past s) (hr : s.Reacts c r s') :
      Reached (past ++ [.request c r]) s'
  | gone {past : List Occurrence} {s s' : Service} {c : ConnId} (h : Reached past s)
      (hc : s.Loses c s') :
      Reached (past ++ [.gone c]) s'

section Fields

variable (s : Service) (c : ConnId)

@[simp] theorem members_announce
    (text : String) (now : Int) (names : List String) :
    (s.announce text now names).members = s.members := by
  rfl

@[simp] theorem members_enter
    (name : String) :
    (s.enter c name).members = Function.update s.members c (some name) := by
  rfl

@[simp] theorem members_part :
    (s.part c).members = Function.update s.members c none := by
  rfl

theorem inbox_post
    (n : Notice) (d : ConnId) :
    (s.post c n).inbox d = s.inbox d ++ if d = c then [n] else [] := by
  by_cases hd : d = c
  · subst hd
    simp [post]
  · simp [post, hd]

theorem inbox_announce
    (text : String) (now : Int) (names : List String) (d : ConnId) :
    (s.announce text now names).inbox d =
      s.inbox d ++ if (s.members d).isSome then [.system text now, .users names] else [] := by
  unfold announce
  dsimp only
  split <;> simp

theorem inbox_say
    (u : Utterance) (d : ConnId) :
    (s.say c u).inbox d =
      s.inbox d ++ if (s.members d).isSome ∧ d ≠ c then [.chat u] else [] := by
  unfold say
  dsimp only
  split <;> simp

end Fields

section Invariants

variable {past : List Occurrence} {s s' : Service} {c : ConnId} {r : Request}

/-- What the service promises about its members. -/
structure Sound (s : Service) : Prop where
  unique : ∀ c d name, s.members c = some name → s.members d = some name → c = d
  named : ∀ c name, s.members c = some name → name ≠ ""
  joined : ∀ c, (s.audience.since c).isSome = (s.members c).isSome
  faithful : s.audience.Faithful

theorem sound_empty :
    empty.Sound where
  unique c d name h := by
    cases h
  named c name h := by
    cases h
  joined c := rfl
  faithful := Audience.faithful_empty

theorem Sound.of_eq
    (h : s.Sound) (hmembers : s'.members = s.members) (haudience : s'.audience = s.audience) :
    s'.Sound where
  unique := hmembers ▸ h.unique
  named := hmembers ▸ h.named
  joined := by
    rw [hmembers, haudience]
    exact h.joined
  faithful := haudience ▸ h.faithful

theorem Sound.enter
    (h : s.Sound) {name : String} (hne : name ≠ "") (hfree : ∀ d, s.members d ≠ some name) :
    (s.enter c name).Sound where
  unique := by
    intro d d' name' hd hd'
    simp only [members_enter, Function.update_apply] at hd hd'
    split at hd
    · next hc =>
        split at hd'
        · next hc' =>
            rw [hc, hc']
        · rw [← hd] at hd'
          exact absurd hd' (hfree d')
    · split at hd'
      · rw [← hd'] at hd
        exact absurd hd (hfree d)
      · exact h.unique d d' name' hd hd'
  named := by
    intro d name' hd
    simp only [members_enter, Function.update_apply] at hd
    split at hd
    · rw [← Option.some.inj hd]
      exact hne
    · exact h.named d name' hd
  joined := by
    intro d
    simp only [Service.enter, Audience.join, Function.update_apply]
    split
    · rfl
    · exact h.joined d
  faithful := h.faithful.join c

theorem Sound.part
    (h : s.Sound) :
    (s.part c).Sound where
  unique := by
    intro d d' name hd hd'
    simp only [members_part, Function.update_apply] at hd hd'
    split at hd
    · cases hd
    · split at hd'
      · cases hd'
      · exact h.unique d d' name hd hd'
  named := by
    intro d name hd
    simp only [members_part, Function.update_apply] at hd
    split at hd
    · cases hd
    · exact h.named d name hd
  joined := by
    intro d
    simp only [Service.part, Audience.leave, Function.update_apply]
    split
    · rfl
    · exact h.joined d
  faithful := h.faithful.leave c

theorem Sound.reacts
    (h : s.Sound) (hr : s.Reacts c r s') :
    s'.Sound := by
  cases hr with
  | alreadyIn | unreadable | nameless | taken | stranger | tells | nobody | lists | pongs =>
      exact h.of_eq rfl rfl
  | drops | silent =>
      exact h
  | joins now hout hne hfree hnames =>
      exact (h.enter hne hfree).of_eq rfl rfl
  | speaks now hin hne =>
      exact ⟨h.unique, h.named, h.joined, h.faithful.say c _⟩

theorem Sound.loses
    (h : s.Sound) (hc : s.Loses c s') :
    s'.Sound := by
  cases hc with
  | stranger =>
      exact h
  | member now hin hnames =>
      exact h.part.of_eq rfl rfl

theorem Reached.sound
    (h : Reached past s) :
    s.Sound := by
  induction h with
  | start =>
      exact sound_empty
  | request _ hr ih =>
      exact ih.reacts hr
  | gone _ hc ih =>
      exact ih.loses hc

end Invariants

end Service

end Tcp
end ChatRoom
