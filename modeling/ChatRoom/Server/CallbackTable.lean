import ChatRoom.Lib.Runs
import ChatRoom.Server.Reactor

/-!
# Callbacks after `removeFd`

`Reactor::loop` and `Reactor::handleEvent` (server/reactor.cpp) call callbacks that may
change the table of callbacks themselves.  `loop` looks a descriptor up for every event,
so an event of a descriptor that an earlier event has removed is dropped.  `handleEvent`
copies both callbacks of a descriptor before it calls the first one; if that one removes
the descriptor, the second one is called all the same (`no_callback_after_removal_iff`).
-/

namespace ChatRoom
namespace Reactor

open Runs

/-- `FdContext`.  The callbacks are names; the program says what they do.  `id` tells apart
the registrations of one descriptor. -/
structure FdContext (κ : Type) where
  id : Nat
  onRead : Option κ
  onWrite : Option κ

/-- Entries of the history. -/
inductive CallbackObs where
  /-- `removeFd` has removed a registration -/
  | removed (id : Nat)
  /-- a callback of a registration is called -/
  | invoked (id : Nat)
deriving DecidableEq

/-- The reactor, and the program whose callbacks it calls. -/
structure Process (κ σ : Type) where
  reactor : Reactor (FdContext κ)
  /-- registrations below this number have been made -/
  nextId : Nat
  program : σ
  history : List CallbackObs

namespace Process

variable {κ σ : Type}

/-- A program with a new reactor. -/
def new (program : σ) : Process κ σ where
  reactor := Reactor.new
  nextId := 0
  program := program
  history := []

/-- Record an entry of the history. -/
def note (p : Process κ σ) (o : CallbackObs) : Process κ σ :=
  { p with history := p.history ++ [o] }

/-- `Reactor::addFd` -/
def addFd (p : Process κ σ) (fd : Fd) (events : Interest) (onRead onWrite : Option κ) :
    Except Exn (Process κ σ) :=
  let context := { id := p.nextId, onRead := onRead, onWrite := onWrite }
  (p.reactor.addFd fd events context).map fun reactor =>
    { p with reactor := reactor, nextId := p.nextId + 1 }

/-- `Reactor::modifyFd` -/
def modifyFd (p : Process κ σ) (fd : Fd) (events : Interest) : Process κ σ :=
  { p with reactor := p.reactor.modifyFd fd events }

/-- `Reactor::removeFd` -/
def removeFd (p : Process κ σ) (fd : Fd) : Process κ σ :=
  let p' := { p with reactor := p.reactor.removeFd fd }
  match p.reactor.contexts fd with
  | some context => p'.note (.removed context.id)
  | none => p'

/-- What a callback may do: change the program, close descriptors, and call `addFd`,
`modifyFd` and `removeFd`. -/
inductive Calls : Process κ σ → Process κ σ → Prop
  | refl (p : Process κ σ) : Calls p p
  | setProgram {p p' : Process κ σ} (program : σ) (h : Calls p p') :
      Calls p { p' with program := program }
  | closeFd {p p' : Process κ σ} (fd : Fd) (h : Calls p p') :
      Calls p { p' with reactor := p'.reactor.descriptorClosed fd }
  | addFd {p p' p'' : Process κ σ} {fd : Fd} {events : Interest} {onRead onWrite : Option κ}
      (h : Calls p p') (hadd : p'.addFd fd events onRead onWrite = .ok p'') : Calls p p''
  | modifyFd {p p' : Process κ σ} (fd : Fd) (events : Interest) (h : Calls p p') :
      Calls p (p'.modifyFd fd events)
  | removeFd {p p' : Process κ σ} (fd : Fd) (h : Calls p p') : Calls p (p'.removeFd fd)

end Process

/-- What the callbacks of a program do.  A callback that throws has done something before. -/
structure CallbackProgram (κ σ : Type) where
  act : κ → Process κ σ → Except (Process κ σ) (Process κ σ)
  act_calls : ∀ k p, Process.Calls p (atEnd (act k p))
  tickCb : Option κ

namespace Process

variable {κ σ : Type} (prog : CallbackProgram κ σ)

/-- Call a callback of a registration, if it is set. -/
def invoke (id : Nat) (callback : Option κ) (p : Process κ σ) :
    Except (Process κ σ) (Process κ σ) :=
  match callback with
  | none => .ok p
  | some k => prog.act k (p.note (.invoked id))

/-- `Reactor::handleEvent` -/
def handleEvent (p : Process κ σ) (e : Fd × Ready) : Except (Process κ σ) (Process κ σ) :=
  match p.reactor.contexts e.1 with
  | none => .ok p
  | some context =>
      let readCb := context.onRead
      let writeCb := context.onWrite
      if e.2.failure then
        invoke prog context.id readCb p
      else
        (if e.2.input then invoke prog context.id readCb p else .ok p).bind fun p =>
          if e.2.output then invoke prog context.id writeCb p else .ok p

/-- `tickCb_` is called if `epoll_wait` reports nothing. -/
def tick (p : Process κ σ) (events : List (Fd × Ready)) : Except (Process κ σ) (Process κ σ) :=
  match events, prog.tickCb with
  | [], some k => prog.act k p
  | _, _ => .ok p

/-- One turn of `Reactor::loop`, for the events that `epoll_wait` reports. -/
def turn (p : Process κ σ) (events : List (Fd × Ready)) :
    Except (Process κ σ) (Process κ σ) :=
  (tick prog p events).bind fun p => run (handleEvent prog) p events

/-- `Reactor::loop`, as far as the batches of events go. -/
def loop (p : Process κ σ) (batches : List (List (Fd × Ready))) :
    Except (Process κ σ) (Process κ σ) :=
  run (turn prog) p batches

/-- A callback is not called when its registration has been removed. -/
def NotRemoved (past : List CallbackObs) : CallbackObs → Prop
  | .removed _ => True
  | .invoked id => .removed id ∉ past

/-- If both callbacks of a descriptor are called for one event, the first one does not
remove the registration. -/
def ReadKeepsRegistration (p : Process κ σ) (e : Fd × Ready) : Prop :=
  ∀ context readCb writeCb, p.reactor.contexts e.1 = some context →
    context.onRead = some readCb → context.onWrite = some writeCb →
      e.2 = { input := true, output := true, failure := false } →
        ∀ p', prog.act readCb (p.note (.invoked context.id)) = .ok p' →
          .removed context.id ∉ p'.history

/-- The same for all events of a batch. -/
def ReadsKeepRegistrations (p : Process κ σ) (events : List (Fd × Ready)) : Prop :=
  ∀ p', tick prog p events = .ok p' →
    Meets (ReadKeepsRegistration prog) (handleEvent prog) p' events

section Registrations

variable {prog} {p p' : Process κ σ}

/-- The registrations in the table are different ones, and none of them has been
removed. -/
structure Sound (p : Process κ σ) : Prop where
  numbered : ∀ fd context, p.reactor.contexts fd = some context → context.id < p.nextId
  past : ∀ id, .removed id ∈ p.history → id < p.nextId
  live : ∀ fd context, p.reactor.contexts fd = some context →
    .removed context.id ∉ p.history
  distinct : ∀ fd fd' context context', p.reactor.contexts fd = some context →
    p.reactor.contexts fd' = some context' → context.id = context'.id → fd = fd'

theorem sound_new
    (program : σ) :
    Sound (new program : Process κ σ) where
  numbered _ _ hcontext := by cases hcontext
  past _ hremoved := by cases hremoved
  live _ _ hcontext := by cases hcontext
  distinct _ _ _ _ hcontext := by cases hcontext

/-- A call that leaves the callbacks and the history as they are. -/
theorem Sound.of_same
    (h : Sound p) (hcontexts : p'.reactor.contexts = p.reactor.contexts)
    (hnext : p'.nextId = p.nextId) (hhistory : p'.history = p.history) :
    Sound p' where
  numbered := by rw [hcontexts, hnext]; exact h.numbered
  past := by rw [hhistory, hnext]; exact h.past
  live := by rw [hcontexts, hhistory]; exact h.live
  distinct := by rw [hcontexts]; exact h.distinct

/-- Calling a callback does not remove anything. -/
theorem Sound.note_invoked
    (h : Sound p) (id : Nat) :
    Sound (p.note (.invoked id)) where
  numbered := h.numbered
  past id' hremoved := h.past id' (by simpa [note] using hremoved)
  live fd context hcontext := by simpa [note] using h.live fd context hcontext
  distinct := h.distinct

/-- A new registration has a number of its own. -/
theorem Sound.addFd
    (h : Sound p) {fd : Fd} {events : Interest} {onRead onWrite : Option κ}
    (hadd : p.addFd fd events onRead onWrite = .ok p') :
    Sound p' := by
  obtain ⟨r, hr, rfl⟩ := map_eq_ok.mp hadd
  obtain ⟨-, rfl⟩ := addFd_eq_ok hr
  have hcases : ∀ fd' context,
      Function.update p.reactor.contexts fd
          (some { id := p.nextId, onRead := onRead, onWrite := onWrite }) fd' = some context →
        fd' = fd ∧ context.id = p.nextId ∨
          fd' ≠ fd ∧ p.reactor.contexts fd' = some context := by
    intro fd' context hcontext
    by_cases hfd : fd' = fd
    · subst hfd
      rw [Function.update_self, Option.some.injEq] at hcontext
      exact .inl ⟨rfl, hcontext ▸ rfl⟩
    · rw [Function.update_of_ne hfd] at hcontext
      exact .inr ⟨hfd, hcontext⟩
  refine ⟨?_, ?_, ?_, ?_⟩
  · intro fd' context hcontext
    rcases hcases fd' context hcontext with ⟨-, hid⟩ | ⟨-, hold⟩
    · rw [hid]
      exact Nat.lt_succ_self _
    · exact Nat.lt_succ_of_lt (h.numbered fd' context hold)
  · intro id hremoved
    exact Nat.lt_succ_of_lt (h.past id hremoved)
  · intro fd' context hcontext hremoved
    rcases hcases fd' context hcontext with ⟨-, hid⟩ | ⟨-, hold⟩
    · rw [hid] at hremoved
      exact Nat.lt_irrefl _ (h.past _ hremoved)
    · exact h.live fd' context hold hremoved
  · intro fd₁ fd₂ context₁ context₂ hcontext₁ hcontext₂ hid
    rcases hcases fd₁ context₁ hcontext₁ with ⟨rfl, hid₁⟩ | ⟨-, hold₁⟩
    · rcases hcases fd₂ context₂ hcontext₂ with ⟨rfl, -⟩ | ⟨-, hold₂⟩
      · rfl
      · have := h.numbered fd₂ context₂ hold₂
        omega
    · rcases hcases fd₂ context₂ hcontext₂ with ⟨rfl, hid₂⟩ | ⟨-, hold₂⟩
      · have := h.numbered fd₁ context₁ hold₁
        omega
      · exact h.distinct fd₁ fd₂ context₁ context₂ hold₁ hold₂ hid

/-- What is removed is not in the table any more. -/
theorem Sound.removeFd
    (h : Sound p) (fd : Fd) :
    Sound (p.removeFd fd) := by
  have hleft : ∀ fd' context,
      Function.update p.reactor.contexts fd none fd' = some context →
        fd' ≠ fd ∧ p.reactor.contexts fd' = some context := by
    intro fd' context hcontext
    by_cases hfd : fd' = fd
    · rw [hfd, Function.update_self] at hcontext
      cases hcontext
    · rw [Function.update_of_ne hfd] at hcontext
      exact ⟨hfd, hcontext⟩
  rw [Process.removeFd]
  cases hcontext : p.reactor.contexts fd with
  | none =>
      exact
        { numbered := fun fd' context hc => h.numbered fd' context (hleft fd' context hc).2
          past := h.past
          live := fun fd' context hc => h.live fd' context (hleft fd' context hc).2
          distinct := fun fd₁ fd₂ context₁ context₂ h₁ h₂ =>
            h.distinct fd₁ fd₂ context₁ context₂ (hleft fd₁ context₁ h₁).2
              (hleft fd₂ context₂ h₂).2 }
  | some removed =>
      refine
        { numbered := fun fd' context hc => h.numbered fd' context (hleft fd' context hc).2
          past := ?_
          live := ?_
          distinct := fun fd₁ fd₂ context₁ context₂ h₁ h₂ =>
            h.distinct fd₁ fd₂ context₁ context₂ (hleft fd₁ context₁ h₁).2
              (hleft fd₂ context₂ h₂).2 }
      · intro id hid
        rcases List.mem_append.mp hid with hid | hid
        · exact h.past id hid
        · cases List.mem_singleton.mp hid
          exact h.numbered fd removed hcontext
      · intro fd' context hc hid
        obtain ⟨hne, hold⟩ := hleft fd' context hc
        rcases List.mem_append.mp hid with hid | hid
        · exact h.live fd' context hold hid
        · have hsame : context.id = removed.id := by
            simpa using hid
          exact hne (h.distinct fd' fd context removed hold hcontext hsame)

theorem Sound.calls
    (h : Sound p) (hcalls : Calls p p') :
    Sound p' := by
  induction hcalls with
  | refl =>
      exact h
  | setProgram program _ ih =>
      exact ih.of_same rfl rfl rfl
  | closeFd fd _ ih =>
      exact ih.of_same rfl rfl rfl
  | addFd _ hadd ih =>
      exact ih.addFd hadd
  | modifyFd fd events _ ih =>
      exact ih.of_same (contexts_modifyFd _ fd events) rfl rfl
  | removeFd fd _ ih =>
      exact ih.removeFd fd

/-- A callback calls no callbacks. -/
theorem Calls.history
    (hcalls : Calls p p') :
    ∃ ids : List Nat, p'.history = p.history ++ ids.map .removed := by
  induction hcalls with
  | refl =>
      exact ⟨[], (List.append_nil _).symm⟩
  | setProgram _ _ ih =>
      exact ih
  | closeFd _ _ ih =>
      exact ih
  | addFd _ hadd ih =>
      obtain ⟨r, -, rfl⟩ := map_eq_ok.mp hadd
      exact ih
  | modifyFd _ _ _ ih =>
      exact ih
  | @removeFd p' fd _ ih =>
      obtain ⟨ids, hids⟩ := ih
      rw [Process.removeFd]
      cases p'.reactor.contexts fd with
      | none =>
          exact ⟨ids, hids⟩
      | some context =>
          refine ⟨ids ++ [context.id], ?_⟩
          simp [note, hids]

/-- No callback has been called whose registration had been removed. -/
def Respected (p : Process κ σ) : Prop :=
  Justified NotRemoved p.history

theorem Calls.respected_iff
    (hcalls : Calls p p') :
    Respected p' ↔ Respected p := by
  obtain ⟨ids, hids⟩ := hcalls.history
  rw [Respected, Respected, hids]
  constructor
  · exact Justified.of_append
  · intro h
    refine h.append ?_
    simp only [List.forall_mem_map]
    exact fun id _ past => trivial

end Registrations

section Events

variable {prog} {p p' : Process κ σ}

theorem Sound.invoke
    (h : Sound p) (id : Nat) (callback : Option κ) :
    Sound (atEnd (invoke prog id callback p)) := by
  cases callback with
  | none =>
      exact h
  | some k =>
      exact (h.note_invoked id).calls (prog.act_calls k _)

/-- A callback may be called iff its registration has not been removed. -/
theorem respected_invoke_iff
    (id : Nat) (callback : Option κ) :
    Respected (atEnd (invoke prog id callback p)) ↔
      Respected p ∧ (callback.isSome → .removed id ∉ p.history) := by
  cases callback with
  | none =>
      simp [invoke, atEnd]
  | some k =>
      rw [invoke, (prog.act_calls k _).respected_iff, Respected, Respected]
      simp [note, justified_snoc_iff, NotRemoved]

/-- A callback of a registration that is in the table may be called. -/
theorem Respected.invoke
    (prog : CallbackProgram κ σ) (h : Respected p) (hsound : Sound p) {fd : Fd}
    {context : FdContext κ} (hcontext : p.reactor.contexts fd = some context)
    (callback : Option κ) :
    Respected (atEnd (invoke prog context.id callback p)) :=
  (respected_invoke_iff _ _).mpr ⟨h, fun _ => hsound.live fd context hcontext⟩

theorem of_respected_invoke
    {id : Nat} {callback : Option κ} (h : Respected (atEnd (invoke prog id callback p))) :
    Respected p :=
  ((respected_invoke_iff id callback).mp h).1

theorem Sound.handleEvent
    (h : Sound p) (e : Fd × Ready) :
    Sound (atEnd (handleEvent prog p e)) := by
  rw [Process.handleEvent]
  split
  · exact h
  · split
    · exact h.invoke _ _
    · refine atEnd_bind ?_ ?_
      · split
        · exact h.invoke _ _
        · exact h
      · intro p₁ hp₁
        split
        · exact hp₁.invoke _ _
        · exact hp₁

theorem of_respected_handleEvent
    {e : Fd × Ready} (h : Respected (atEnd (handleEvent prog p e))) :
    Respected p := by
  rw [handleEvent] at h
  split at h
  · exact h
  · split at h
    · exact of_respected_invoke h
    · have hread := of_atEnd_bind ?_ h
      · split at hread
        · exact of_respected_invoke hread
        · exact hread
      · intro p₁ hp₁
        split at hp₁
        · exact of_respected_invoke hp₁
        · exact hp₁

/-- Both callbacks of a registration may be called iff the first one does not remove it. -/
theorem respected_both_iff
    (hsound : Sound p) (hrespected : Respected p) {fd : Fd} {context : FdContext κ}
    (hcontext : p.reactor.contexts fd = some context) (onRead onWrite : Option κ) :
    Respected (atEnd ((invoke prog context.id onRead p).bind
        (invoke prog context.id onWrite))) ↔
      ∀ readCb writeCb, onRead = some readCb → onWrite = some writeCb →
        ∀ p', prog.act readCb (p.note (.invoked context.id)) = .ok p' →
          .removed context.id ∉ p'.history := by
  cases onRead with
  | none =>
      refine iff_of_true (hrespected.invoke prog hsound hcontext onWrite) ?_
      intro _ _ h
      cases h
  | some readCb =>
      have hread := hrespected.invoke prog hsound hcontext (some readCb)
      rw [invoke] at hread ⊢
      cases hact : prog.act readCb (p.note (.invoked context.id)) with
      | error p₁ =>
          rw [hact] at hread
          refine iff_of_true hread ?_
          intro _ _ hreadCb _ p' hok
          cases hreadCb
          rw [hact] at hok
          cases hok
      | ok p₁ =>
          rw [hact] at hread
          have hread₁ : Respected p₁ := hread
          refine (respected_invoke_iff context.id onWrite).trans ?_
          rw [and_iff_right hread₁]
          constructor
          · intro hkeeps _ writeCb hreadCb hwriteCb p' hok
            cases hreadCb
            rw [hact] at hok
            cases hok
            exact hkeeps (hwriteCb ▸ rfl)
          · intro hkeeps hset
            obtain ⟨writeCb, hwriteCb⟩ := Option.isSome_iff_exists.mp hset
            exact hkeeps readCb writeCb rfl hwriteCb p₁ hact

/-- An event calls a callback whose registration has been removed iff it calls both, and
the first one removes the registration. -/
theorem respected_handleEvent_iff
    (hsound : Sound p) (hrespected : Respected p) (e : Fd × Ready) :
    Respected (atEnd (handleEvent prog p e)) ↔ ReadKeepsRegistration prog p e := by
  obtain ⟨fd, events⟩ := e
  rw [handleEvent, ReadKeepsRegistration]
  dsimp only
  cases hcontext : p.reactor.contexts fd with
  | none =>
      refine iff_of_true hrespected ?_
      intro context _ _ h
      cases h
  | some context =>
      by_cases hboth : events = { input := true, output := true, failure := false }
      · subst hboth
        refine (respected_both_iff hsound hrespected hcontext _ _).trans ?_
        constructor
        · intro hkeeps _ readCb writeCb hsame hread hwrite _
          cases hsame
          exact hkeeps readCb writeCb hread hwrite
        · intro hkeeps readCb writeCb hread hwrite
          exact hkeeps context readCb writeCb rfl hread hwrite rfl
      · refine iff_of_true ?_ fun _ _ _ _ _ _ h => absurd h hboth
        have hcalled := hrespected.invoke prog hsound hcontext
        -- at most one callback is called
        obtain ⟨input, output, failure⟩ := events
        cases failure with
        | true =>
            exact hcalled _
        | false =>
            cases input with
            | false =>
                cases output with
                | false =>
                    exact hrespected
                | true =>
                    exact hcalled _
            | true =>
                cases output with
                | false =>
                    exact atEnd_bind (hcalled _) fun _ h => h
                | true =>
                    exact absurd rfl hboth

end Events

section Loop

variable {prog} {p p' : Process κ σ}

/-- The tick callback is a callback. -/
theorem calls_tick
    (prog : CallbackProgram κ σ) (p : Process κ σ) (events : List (Fd × Ready)) :
    Calls p (atEnd (tick prog p events)) := by
  unfold tick
  split
  · exact prog.act_calls _ p
  · exact .refl p

theorem Sound.turn
    (h : Sound p) (events : List (Fd × Ready)) :
    Sound (atEnd (turn prog p events)) :=
  atEnd_bind (h.calls (calls_tick prog p events)) fun _ hp =>
    atEnd_run (fun _ e hp => hp.handleEvent e) hp events

theorem of_respected_turn
    {events : List (Fd × Ready)} (h : Respected (atEnd (turn prog p events))) :
    Respected p := by
  have hrun : ∀ p₁, Respected (atEnd (run (handleEvent prog) p₁ events)) → Respected p₁ := by
    intro p₁ hp₁
    exact of_atEnd_run (fun _ _ => of_respected_handleEvent) hp₁
  have htick : Respected (atEnd (tick prog p events)) := of_atEnd_bind hrun h
  exact (calls_tick prog p events).respected_iff.mp htick

/-- A turn of the loop. -/
theorem respected_turn_iff
    (hsound : Sound p) (hrespected : Respected p) (events : List (Fd × Ready)) :
    Respected (atEnd (turn prog p events)) ↔ ReadsKeepRegistrations prog p events := by
  have hcalls := calls_tick prog p events
  have hsound' := hsound.calls hcalls
  have hrespected' := hcalls.respected_iff.mpr hrespected
  rw [turn, ReadsKeepRegistrations]
  cases htick : tick prog p events with
  | error p₁ =>
      rw [htick] at hrespected'
      exact iff_of_true hrespected' fun p' h => by cases h
  | ok p₁ =>
      rw [htick] at hsound' hrespected'
      simp only [Except.ok.injEq, forall_eq']
      exact atEnd_run_iff (Q := Respected) (fun _ e hp hr => respected_handleEvent_iff hp hr e)
        (fun _ e hp => hp.handleEvent e) (fun _ _ => of_respected_handleEvent) hsound'
        hrespected' events

/-- For every table of callbacks, whatever the callbacks do, and all batches of events:
no callback is called after `removeFd` has removed its registration iff, whenever the loop
calls both callbacks of a descriptor for one event, the first one does not remove the
registration. -/
theorem no_callback_after_removal_iff
    {program : σ} (hcalls : Calls (new program) p) (batches : List (List (Fd × Ready))) :
    Justified NotRemoved (atEnd (loop prog p batches)).history ↔
      Meets (ReadsKeepRegistrations prog) (turn prog) p batches :=
  atEnd_run_iff (Q := Respected) (fun _ events hp hr => respected_turn_iff hp hr events)
    (fun _ events hp => hp.turn events) (fun _ _ => of_respected_turn)
    ((sound_new program).calls hcalls) (hcalls.respected_iff.mpr justified_nil) batches

/-- A callback that removes a descriptor, as `close` does in `onRead`. -/
def removesFd (fd : Fd) : CallbackProgram Unit Unit where
  act _ p := .ok (p.removeFd fd)
  act_calls _ p := .removeFd fd (.refl p)
  tickCb := none

/-- The descriptor 5 has callbacks for reading and writing. -/
def oneDescriptor : Process Unit Unit where
  reactor :=
    { contexts := Function.update (fun _ => none) 5
        (some { id := 0, onRead := some (), onWrite := some () })
      interest := Function.update (fun _ => none) 5 (some EPOLLINOUT) }
  nextId := 1
  program := ()
  history := []

theorem calls_oneDescriptor :
    Calls (new ()) oneDescriptor := by
  have hadd : (new () : Process Unit Unit).addFd 5 EPOLLINOUT (some ()) (some ()) =
      .ok oneDescriptor := rfl
  exact .addFd (.refl _) hadd

/-- The read callback removes the descriptor, and a later event for it is not handled. -/
theorem no_callback_after_removal_iff_oneDescriptor :
    Justified NotRemoved (atEnd (loop (removesFd 5) oneDescriptor
      [[(5, { input := true, output := false, failure := false })],
        [(5, { input := true, output := true, failure := false })]])).history := by
  refine (no_callback_after_removal_iff calls_oneDescriptor _).mpr ⟨?_, ?_⟩
  · intro p₁ _
    refine ⟨?_, fun _ _ => trivial⟩
    intro context readCb writeCb _ _ _ hready
    cases hready
  · intro p₁ hturn
    have hgone : p₁.reactor.contexts 5 = none := by
      rw [← Except.ok.inj hturn]
      rfl
    refine ⟨?_, fun _ _ => trivial⟩
    intro p₂ htick
    cases htick
    refine ⟨?_, fun _ _ => trivial⟩
    intro context readCb writeCb hcontext
    rw [hgone] at hcontext
    cases hcontext

/-- The write callback is called although the read callback has removed the descriptor. -/
theorem callback_called_after_removal :
    ¬ Justified NotRemoved (atEnd (loop (removesFd 5) oneDescriptor
      [[(5, { input := true, output := true, failure := false })]])).history := by
  intro hjustified
  have hhistory : (atEnd (loop (removesFd 5) oneDescriptor
      [[(5, { input := true, output := true, failure := false })]])).history =
        [.invoked 0, .removed 0, .invoked 0] := by
    decide +kernel
  rw [hhistory] at hjustified
  exact hjustified [.invoked 0, .removed 0] (.invoked 0) [] rfl (by simp)

end Loop

end Process
end Reactor
end ChatRoom
