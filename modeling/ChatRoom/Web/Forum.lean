import ChatRoom.Web.World
import Mathlib.Data.List.DropRight

/-!
# The forum

What the web server is for, without bytes, buffers, descriptors and documents.
Clients ask the API for something and get a reply; browsers that have been let in
speak without being answered.  One table says who is logged in, with which token.
Everything that has been said is kept, but only the last of it is given out.

Some things are left open: which token a login gets, if nobody has had it before,
in which order the members are listed, and what time it is.
-/

namespace ChatRoom
namespace Web

open Http

/-- What the holder of a token may ask for.  `misfit` is a request that the API does
not understand. -/
inductive Wish where
  | users
  | recent (since : Int)
  | post (content : String)
  | logout
  | misfit (status : Int) (reason : String)

/-- What a client asks for.  A document without the text that is looked for in it has no
name or no wish; a page is asked for as it is now. -/
inductive Ask where
  | login (name : Option String)
  | member (tok : Bytes) (wish : Option Wish)
  | enter (tok version key : Bytes)
  | page (resp : HttpResponse)
  | misfit (status : Int) (reason : String)
  | unavailable (status : Int) (reason : String)

/-- What a client is answered; `denied` is the answer to a browser that is not let in. -/
inductive Reply where
  | refused (status : Int) (reason : String)
  | denied (status : Int) (reason : String)
  | welcome (tok name : String)
  | users (names : List String)
  | recent (messages : List Message)
  | done
  | entered (key : Bytes)
  | page (resp : HttpResponse)

/-- Who is logged in with which token, which tokens have been given out, under which names
sockets have been let in and browsers speak, and what has been said. -/
structure Forum where
  token : String → Option Bytes
  issued : List Bytes
  guest : SocketId → Option String
  browser : WsId → Option String
  said : List Message

namespace Forum

def empty : Forum where
  token _ := none
  issued := []
  guest _ := none
  browser _ := none
  said := []

def login (s : Forum) (name : String) (tok : Bytes) : Forum :=
  { s with
    token := Function.update s.token name (some tok)
    issued := s.issued ++ [tok] }

def logout (s : Forum) (name : String) : Forum :=
  { s with token := Function.update s.token name none }

def say (s : Forum) (m : Message) : Forum :=
  { s with said := s.said ++ [m] }

def enter (s : Forum) (socket : SocketId) (name : String) : Forum :=
  { s with guest := Function.update s.guest socket (some name) }

def adopt (s : Forum) (x : WsId) (name : String) : Forum :=
  { s with browser := Function.update s.browser x (some name) }

/-- The names of the members, each once, in any order. -/
def Lists (s : Forum) (names : List String) : Prop :=
  names.Nodup ∧ ∀ name, name ∈ names ↔ (s.token name).isSome

/-- What has been said last, as far as it is new. -/
def recent (s : Forum) (since : Int) : List Message :=
  (s.said.rtake Room.MAX_HISTORY).filter fun m => m.time > since

/-- Nobody holds the token. -/
def Void (s : Forum) (tok : Bytes) : Prop :=
  tok = [] ∨ ∀ name, s.token name ≠ some tok

/-- This member holds the token. -/
def Holds (s : Forum) (name : String) (tok : Bytes) : Prop :=
  tok ≠ [] ∧ s.token name = some tok

/-- A member gets what it asks for. -/
inductive Grants (s : Forum) (now : Int) (name : String) : Wish → Reply → Forum → Prop where
  | users {names : List String} (hnames : s.Lists names) :
      Grants s now name .users (.users names) s
  | recent (since : Int) :
      Grants s now name (.recent since) (.recent (s.recent since)) s
  | nothing :
      Grants s now name (.post "") (.refused 400 "empty content") s
  | post {content : String} (hne : content ≠ "") :
      Grants s now name (.post content) .done
        (s.say { from_ := name, room := "lobby", content := content, time := now })
  | logout :
      Grants s now name .logout .done (s.logout name)
  | misfit (status : Int) (reason : String) :
      Grants s now name (.misfit status reason) (.refused status reason) s

/-- A client is answered that asks for something on a socket. -/
inductive Answers (s : Forum) (now : Int) (socket : SocketId) :
    Ask → Reply → Forum → Prop where
  | nameless :
      Answers s now socket (.login (some "")) (.refused 400 "missing username") s
  | taken {name : String} (hne : name ≠ "") (htaken : (s.token name).isSome) :
      Answers s now socket (.login (some name)) (.refused 409 "username taken") s
  | welcome {name tok : String} (hne : name ≠ "") (hfree : s.token name = none)
      (htok : tok ≠ "") (hfresh : bytes tok ∉ s.issued) :
      Answers s now socket (.login (some name)) (.welcome tok name) (s.login name (bytes tok))
  | missing (wish : Option Wish) :
      Answers s now socket (.member [] wish) (.refused 401 "missing token") s
  | invalid {tok : Bytes} (wish : Option Wish) (hne : tok ≠ []) (hvoid : s.Void tok) :
      Answers s now socket (.member tok wish) (.refused 401 "invalid token") s
  | member {name : String} {tok : Bytes} {wish : Wish} {reply : Reply} {s' : Forum}
      (hholds : s.Holds name tok) (hgrants : s.Grants now name wish reply s') :
      Answers s now socket (.member tok (some wish)) reply s'
  | stranger {tok : Bytes} (version key : Bytes) (hvoid : s.Void tok) :
      Answers s now socket (.enter tok version key) (.denied 401 "invalid token") s
  | version {name : String} {tok version : Bytes} (key : Bytes) (hholds : s.Holds name tok)
      (hversion : version ≠ bytes "13") :
      Answers s now socket (.enter tok version key)
        (.denied 400 "Sec-WebSocket-Version must be 13") s
  | keyless {name : String} {tok : Bytes} (hholds : s.Holds name tok) :
      Answers s now socket (.enter tok (bytes "13") [])
        (.denied 400 "missing Sec-WebSocket-Key") s
  | enters {name : String} {tok key : Bytes} (hholds : s.Holds name tok) (hkey : key ≠ []) :
      Answers s now socket (.enter tok (bytes "13") key) (.entered key) (s.enter socket name)
  | page (resp : HttpResponse) :
      Answers s now socket (.page resp) (.page resp) s
  | misfit (status : Int) (reason : String) :
      Answers s now socket (.misfit status reason) (.refused status reason) s
  | unavailable (status : Int) (reason : String) :
      Answers s now socket (.unavailable status reason) (.denied status reason) s

end Forum

/-- A question of a client: when it is asked, by which connection, on which socket. -/
structure Question where
  now : Int
  conn : HttpId
  socket : SocketId
  ask : Ask

/-- What happens in the forum.  What a browser says may be no chat message. -/
inductive Happening where
  | asked (q : Question) (reply : Reply)
  | adopted (socket : SocketId) (x : WsId) (name : String)
  | spoke (now : Int) (x : WsId) (chat : Option (String × String))

/-- The question of a happening. -/
def Happening.question? : Happening → Option Question
  | .asked q _ => some q
  | .adopted _ _ _ => none
  | .spoke _ _ _ => none

namespace Forum

/-- The forum may be in this state when this has happened. -/
inductive Reached : List Happening → Forum → Prop where
  | start : Reached [] empty
  | asked {past : List Happening} {s s' : Forum} {q : Question} {reply : Reply}
      (h : Reached past s) (hanswers : s.Answers q.now q.socket q.ask reply s') :
      Reached (past ++ [.asked q reply]) s'
  | adopted {past : List Happening} {s : Forum} {socket : SocketId} {name : String} (x : WsId)
      (h : Reached past s) (hguest : s.guest socket = some name) :
      Reached (past ++ [.adopted socket x name]) (s.adopt x name)
  | babbled {past : List Happening} {s : Forum} (now : Int) (x : WsId) (h : Reached past s) :
      Reached (past ++ [.spoke now x none]) s
  | spoke {past : List Happening} {s : Forum} {x : WsId} {name : String} (now : Int)
      (room content : String) (h : Reached past s) (hx : s.browser x = some name) :
      Reached (past ++ [.spoke now x (some (room, content))])
        (s.say { from_ := name, room := room, content := content, time := now })

end Forum

end Web
end ChatRoom
