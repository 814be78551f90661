import ChatRoom.Lib.Runs
import ChatRoom.Lib.Timer
import ChatRoom.Server.Reactor

/-!
# The loop of the reactor

`Reactor::loop` (server/reactor.cpp), with the results of `epoll_wait` as its input.
The tick callback runs when `epoll_wait` reports nothing, so it depends on the traffic
how often it runs.
-/

namespace ChatRoom
namespace Reactor

/-- What `epoll_wait` returns. -/
inductive WaitResult where
  /-- `n` events, `n ≥ 0` -/
  | events (events : List (Fd × Ready))
  /-- `-1`, with `EINTR` -/
  | interrupted
  /-- `-1`, with another `errno` -/
  | failed

/-- A call `epoll_wait(epollFd_, events, 1024, 1000)`: its result, and the milliseconds
it took. -/
structure EpollWait where
  result : WaitResult
  waited : ℚ
  fits : ∀ events, result = .events events → events.length ≤ 1024
  waited_nonneg : 0 ≤ waited
  waited_le : waited ≤ 1000

/-- What the loop uses of the reactor and of the program around it: `running_`,
`tickCb_` and `handleEvent`.  An exception that leaves a callback is a state of the
program in which nothing is running. -/
structure LoopProgram (σ : Type) where
  running : σ → Bool
  tickCb : Option (σ → σ)
  handleEvent : σ → Fd → Ready → σ

/-- The program, and the times at which `tickCb_` has been called. -/
structure LoopState (σ : Type) where
  program : σ
  record : Timer.Record ℚ

/-- Why the loop is left. -/
inductive LoopEnd where
  /-- `running_` is false -/
  | stopped
  /-- `epoll_wait` has failed -/
  | broken

variable {σ : Type}

/-- The loop is entered. -/
def LoopState.enter (s : σ) : LoopState σ where
  program := s
  record := Timer.Record.start

/-- `n == 0` -/
def EpollWait.timedOut (e : EpollWait) : Bool :=
  match e.result with
  | .events events => events.isEmpty
  | _ => false

/-- The time that passes in a call, with a ring if `tickCb_` is called after it. -/
def EpollWait.lap (e : EpollWait) (installed : Bool) : Timer.Wait ℚ where
  length := e.waited
  rings := e.timedOut && installed

/-- What the program does after a call: `tickCb_` if there is nothing to handle, and
`handleEvent` for every event. -/
def afterWait (prog : LoopProgram σ) (s : σ) (events : List (Fd × Ready)) : σ :=
  let s := if events.isEmpty then prog.tickCb.elim s fun tickCb => tickCb s else s
  events.foldl (fun s e => prog.handleEvent s e.1 e.2) s

/-- One turn of `Reactor::loop`. -/
def turn (prog : LoopProgram σ) (l : LoopState σ) (e : EpollWait) :
    Except LoopEnd (LoopState σ) :=
  if prog.running l.program then
    let l := { l with record := l.record.wait (e.lap prog.tickCb.isSome) }
    match e.result with
    | .failed => .error .broken
    | .interrupted => .ok l
    | .events events => .ok { l with program := afterWait prog l.program events }
  else
    .error .stopped

/-- `Reactor::loop`, as far as the results of `epoll_wait` go. -/
def loop (prog : LoopProgram σ) (s : σ) (waits : List EpollWait) :
    Except LoopEnd (LoopState σ) :=
  Runs.run (turn prog) (LoopState.enter s) waits

/-- The calls of `epoll_wait` after which the loop goes on without `tickCb_`. -/
def EpollWait.busy (e : EpollWait) : Bool :=
  !e.timedOut

section Ticks

variable {prog : LoopProgram σ} {l l' : LoopState σ} {e : EpollWait} {waits : List EpollWait}

/-- A turn takes the time of its call, and ticks if the call has timed out. -/
theorem record_turn
    (h : turn prog l e = .ok l') :
    l'.record = l.record.wait (e.lap prog.tickCb.isSome) := by
  unfold turn at h
  split at h
  · split at h
    · cases h
    · cases h
      rfl
    · cases h
      rfl
  · cases h

/-- The times of the ticks are determined by the results of `epoll_wait`. -/
theorem record_run
    (h : Runs.run (turn prog) l waits = .ok l') :
    l'.record = (waits.map fun e => e.lap prog.tickCb.isSome).foldl Timer.Record.wait l.record := by
  induction waits generalizing l with
  | nil =>
      cases h
      rfl
  | cons e waits ih =>
      obtain ⟨l₁, hturn, hrun⟩ := Runs.run_cons.mp h
      rw [ih hrun, record_turn hturn, List.map_cons, List.foldl_cons]

/-- A block of calls between whose ends `tickCb_` does not run. -/
theorem silentInside_laps
    (block : List EpollWait) :
    Timer.SilentInside (block.map fun e => e.lap true) ↔
      ∀ e ∈ block.dropLast, e.busy = true := by
  simp only [Timer.SilentInside, ← List.map_dropLast, List.forall_mem_map, EpollWait.lap,
    EpollWait.busy, Bool.and_true, Bool.not_eq_true']

/-- With a tick callback installed: no two ticks, and neither the start and the first tick
nor the last tick and the present, are more than two seconds apart iff no block of
consecutive calls of `epoll_wait` takes longer that reports events in all calls but the
last. -/
theorem ticks_on_time_iff
    {s : σ} (htick : prog.tickCb.isSome) (h : loop prog s waits = .ok l) :
    l.record.Within 2000 ↔
      ∀ block, block <:+: waits → (∀ e ∈ block.dropLast, e.busy = true) →
        (block.map EpollWait.waited).sum ≤ 2000 := by
  have hnonneg : ∀ w ∈ waits.map fun e => e.lap true, 0 ≤ w.length := by
    simp only [List.forall_mem_map]
    intro e he
    exact e.waited_nonneg
  have hrecord := record_run h
  rw [htick] at hrecord
  rw [hrecord]
  refine (Timer.within_foldl_iff hnonneg).trans ?_
  constructor
  · intro hblocks block hblock hbusy
    simpa [Timer.total, Function.comp_def, EpollWait.lap] using
      hblocks (block.map fun e => e.lap true) (hblock.map _) ((silentInside_laps block).mpr hbusy)
  · intro hblocks block hblock hsilent
    obtain ⟨calls, hcalls, rfl⟩ := List.infix_map_iff.mp hblock
    simpa [Timer.total, Function.comp_def, EpollWait.lap] using
      hblocks calls hcalls ((silentInside_laps calls).mp hsilent)

/-- A program that runs for ever, handles events without a change, and counts its ticks. -/
def tickCounter : LoopProgram Nat where
  running _ := true
  tickCb := some fun ticks => ticks + 1
  handleEvent ticks _ _ := ticks

/-- A call that times out. -/
def timeout : EpollWait where
  result := .events []
  waited := 1000
  fits := by simp
  waited_nonneg := by norm_num
  waited_le := by norm_num

/-- A call that reports one readable descriptor after 0.9 seconds. -/
def oneReadable : EpollWait where
  result := .events [(7, { input := true, output := false, failure := false })]
  waited := 900
  fits := by simp
  waited_nonneg := by norm_num
  waited_le := by norm_num

theorem ticks_on_time_iff_timeout :
    ∃ l, loop tickCounter 0 [oneReadable, timeout] = .ok l ∧ l.record.Within 2000 := by
  obtain ⟨l, hloop⟩ : ∃ l, loop tickCounter 0 [oneReadable, timeout] = .ok l := ⟨_, rfl⟩
  refine ⟨l, hloop, (ticks_on_time_iff rfl hloop).mpr ?_⟩
  intro block hblock _
  -- the two calls together take less than two seconds
  have hnonneg : ∀ t ∈ [oneReadable, timeout].map EpollWait.waited, (0 : ℚ) ≤ t := by
    simp [oneReadable, timeout]
  calc (block.map EpollWait.waited).sum
      ≤ ([oneReadable, timeout].map EpollWait.waited).sum :=
        (hblock.sublist.map EpollWait.waited).sum_le_sum hnonneg
    _ ≤ 2000 := by norm_num [oneReadable, timeout]

/-- Three events in a row, and the timer has been silent for 2.7 seconds. -/
theorem busy_loop_starves_timer :
    ¬ ∀ (waits : List EpollWait) (l : LoopState Nat),
      loop tickCounter 0 waits = .ok l → l.record.Within 2000 := by
  intro hall
  have hwithin := hall [oneReadable, oneReadable, oneReadable] _ rfl
  have hclock : (0 : ℚ) + 900 + 900 + 900 - 0 ≤ 2000 :=
    (List.isChain_cons_cons.mp hwithin).1
  norm_num at hclock

end Ticks

end Reactor
end ChatRoom
