import ChatRoom.Lib.Incremental
import ChatRoom.Lib.Socket

/-!
# Reading from a socket in portions of a known size

A program that blocks in `recv` until it has a given number of bytes, whatever
number of them the kernel hands out at a call.  It gets the front of the stream
or, if the stream is shorter, what the kernel says at its end
(`readExactly_eq_ok`, `readExactly_eq_error`).

A reader of messages that consist of such portions takes off the stream what an
incremental decoder takes off its bytes (`Reads`, `readAll_drain`).
-/

namespace ChatRoom
namespace Socket

open Incremental

namespace Input

/-- `while len(buf) < n: buf += recv(n - len(buf))`.  Each turn but the last one gets
a byte. -/
def readLoop (n : Nat) : Nat → List UInt8 → Input → Except Idle (List UInt8 × Input)
  | 0, _, s => .error s.idle
  | fuel + 1, buf, s =>
      if buf.length < n then
        match s.recv (n - buf.length) with
        | (.data bs _ _, s') => readLoop n fuel (buf ++ bs) s'
        | (.zero, _) => .error .eof
        | (.again, _) => .error .again
        | (.error, _) => .error .error
      else
        .ok (buf, s)

/-- Exactly `n` bytes from the stream, or what `recv` answers at its end. -/
def readExactly (s : Input) (n : Nat) : Except Idle (List UInt8 × Input) :=
  readLoop n (n + 1) [] s

/-- Asked for bytes at its end, a socket answers how it has ended. -/
theorem readLoop_end
    {n fuel : Nat} {buf : List UInt8} {s : Input} (hp : s.pending.length = 0)
    (hbuf : buf.length < n) :
    readLoop n (fuel + 1) buf s = .error s.idle := by
  rw [readLoop, if_pos hbuf]
  unfold recv
  rw [dif_pos hp]
  cases s.idle <;> rfl

/-- The loop gets what is missing from the front of the stream. -/
theorem readLoop_spec
    {n fuel : Nat} (buf : List UInt8) (s : Input) (hbuf : buf.length ≤ n)
    (hfuel : n - buf.length < fuel) :
    (n - buf.length ≤ s.pending.length → ∃ s',
        readLoop n fuel buf s = .ok (buf ++ s.pending.take (n - buf.length), s') ∧
          s'.pending = s.pending.drop (n - buf.length) ∧ s'.idle = s.idle) ∧
      (s.pending.length < n - buf.length → readLoop n fuel buf s = .error s.idle) := by
  induction fuel generalizing buf s with
  | zero =>
      omega
  | succ fuel ih =>
      by_cases hfull : n ≤ buf.length
      · have hzero : n - buf.length = 0 := by
          omega
        refine ⟨fun _ => ⟨s, ?_, by rw [hzero]; rfl, rfl⟩, fun h => by omega⟩
        rw [readLoop, if_neg (by omega), hzero, List.take_zero, List.append_nil]
      · by_cases hp : s.pending.length = 0
        · exact ⟨fun h => by omega, fun _ => readLoop_end hp (by omega)⟩
        · obtain ⟨bs, pos, fits, s', hrecv, hsplit, hidle⟩ :=
            recv_data (s := s) (k := n - buf.length) (by omega) (by omega)
          have hlen : (buf ++ bs).length = buf.length + bs.length := List.length_append
          have hloop : readLoop n (fuel + 1) buf s = readLoop n fuel (buf ++ bs) s' := by
            rw [readLoop, if_pos (by omega), hrecv]
          have hleft : n - (buf ++ bs).length = n - buf.length - bs.length := by
            omega
          have hpending : s.pending.length = bs.length + s'.pending.length := by
            rw [hsplit, List.length_append]
          obtain ⟨hget, hshort⟩ := ih (buf ++ bs) s' (by omega) (by omega)
          rw [hloop]
          refine ⟨fun h => ?_, fun h => ?_⟩
          · obtain ⟨s'', hok, hrest, hidle'⟩ := hget (by omega)
            refine ⟨s'', ?_, ?_, hidle'.trans hidle⟩
            · rw [hok, hleft, hsplit, List.take_append, List.take_of_length_le fits,
                List.append_assoc]
            · rw [hrest, hleft, hsplit, List.drop_append, List.drop_of_length_le fits,
                List.nil_append]
          · rw [hshort (by omega), hidle]

/-- A stream that is long enough gives its front. -/
theorem readExactly_eq_ok
    {s : Input} {n : Nat} (h : n ≤ s.pending.length) :
    ∃ s', s.readExactly n = .ok (s.pending.take n, s') ∧ s'.pending = s.pending.drop n ∧
      s'.idle = s.idle := by
  exact (readLoop_spec [] s (Nat.zero_le n) (Nat.lt_succ_self n)).1 h

/-- A stream that is too short gives how it ends. -/
theorem readExactly_eq_error
    {s : Input} {n : Nat} (h : s.pending.length < n) :
    s.readExactly n = .error s.idle := by
  exact (readLoop_spec [] s (Nat.zero_le n) (Nat.lt_succ_self n)).2 h

end Input

section Messages

universe u v

variable {α : Type u} {κ : Type v}

/-- `read` takes off a stream what the decoder takes off its bytes; at the end of the
stream and at bytes that the decoder rejects it stops, and says why. -/
structure Reads (d : Decoder UInt8 α) (atEnd : Idle → κ) (rejected : κ)
    (read : Input → Except κ (α × Input)) : Prop where
  done : ∀ {s n a}, d.decode s.pending = .done n a →
    ∃ s', read s = .ok (a, s') ∧ s'.pending = s.pending.drop n ∧ s'.idle = s.idle
  wait : ∀ {s}, d.decode s.pending = .wait → read s = .error (atEnd s.idle)
  malformed : ∀ {s}, d.decode s.pending = .malformed → read s = .error rejected

/-- `while True: read()`, until it stops.  Each turn but the last one takes a byte. -/
def readAll (read : Input → Except κ (α × Input)) : Nat → Input → List α × Option κ
  | 0, _ => ([], none)
  | fuel + 1, s =>
      match read s with
      | .error k => ([], some k)
      | .ok (a, s') => (a :: (readAll read fuel s').1, (readAll read fuel s').2)

/-- Reading until the end is draining the stream. -/
theorem Reads.readAll_drain
    {d : Decoder UInt8 α} {atEnd : Idle → κ} {rejected : κ}
    {read : Input → Except κ (α × Input)} (h : Reads d atEnd rejected read)
    {fuel : Nat} {s : Input} (hfuel : s.pending.length < fuel) :
    readAll read fuel s =
      ((d.drain s.pending).items,
        some (if (d.drain s.pending).failed then rejected else atEnd s.idle)) := by
  induction fuel generalizing s with
  | zero =>
      omega
  | succ fuel ih =>
      cases hdec : d.decode s.pending with
      | done n a =>
          have hbounds := d.done_bounds hdec
          obtain ⟨s', hread, hrest, hidle⟩ := h.done hdec
          have hless : s'.pending.length < fuel := by
            rw [hrest, List.length_drop]
            omega
          rw [Decoder.drain_done hdec, ← hrest, ← hidle]
          simp only [readAll, hread, ih hless]
      | wait =>
          rw [Decoder.drain_wait _ hdec]
          simp only [readAll, h.wait hdec, Bool.false_eq_true, if_false]
      | malformed =>
          rw [Decoder.drain_malformed hdec]
          simp only [readAll, h.malformed hdec, if_true]

end Messages

end Socket
end ChatRoom
