import Exhy.Library.CString
import Mathlib.Tactic.Cases

/-!
# Streams

Reading from a connected socket, as `socket_stream.cpp` and `exhy_stream.cpp` do it.
-/

namespace Exhy.Http

open Library

/-- What the peer sends before it closes its end: each read gets bytes of one packet. -/
abbrev Socket := List Bytes

/-- Why a receive has no result: it closed the connection, or an exception left it.  The
last is the fuel of the loops here. -/
inductive Stop where
  | closed
  | threw
  | stuck
  deriving DecidableEq, Repr

/-- `read(buffer, length)`: at most `length` bytes; none at the end of the stream. -/
def read (length : Nat) : Socket → Bytes × Socket
  | [] => ([], [])
  | packet :: later =>
      (packet.take length,
        if packet.length ≤ length then later else packet.drop length :: later)

/-- `readFixSize(buffer, length)`, which fails when the stream ends before. -/
def readFixSize : (fuel left : Nat) → Socket → Except Stop (Bytes × Socket)
  | _, 0, socket => .ok ([], socket)
  | 0, _ + 1, _ => .error .stuck
  | fuel + 1, left + 1, socket =>
      let (bytes, socket) := read (left + 1) socket
      if bytes = [] then .error .closed
      else
        match readFixSize fuel (left + 1 - bytes.length) socket with
        | .error stop => .error stop
        | .ok (rest, socket) => .ok (bytes ++ rest, socket)

/-- Every packet has a byte. -/
def Socket.Full (socket : Socket) : Prop := ∀ packet ∈ socket, packet ≠ []

instance (socket : Socket) : Decidable socket.Full :=
  inferInstanceAs (Decidable (∀ packet ∈ socket, packet ≠ []))

theorem Socket.Full.tail {packet : Bytes} {later : Socket} (full : Socket.Full (packet :: later)) :
    Socket.Full later := fun other member => full other (List.mem_cons_of_mem _ member)

theorem Socket.Full.length_le {socket : Socket} (full : socket.Full) :
    socket.length ≤ socket.flatten.length := by
  induction socket with
  | nil => exact Nat.zero_le _
  | cons packet later ih =>
      have some : 0 < packet.length := List.length_pos_of_ne_nil (full packet List.mem_cons_self)
      have rest := ih full.tail
      rw [List.length_cons, List.flatten_cons, List.length_append]
      omega

/-- A read takes a part of the stream, and some byte unless the stream is at its end. -/
theorem read_spec {length : Nat} {socket : Socket} (full : socket.Full) (room : 0 < length) :
    (read length socket).1 ++ (read length socket).2.flatten = socket.flatten ∧
      (read length socket).1.length ≤ length ∧ (read length socket).2.Full ∧
      ((read length socket).1 = [] → socket = []) := by
  cases socket with
  | nil =>
      refine ⟨rfl, Nat.zero_le _, ?_, fun _ => rfl⟩
      intro packet member
      cases member
  | cons packet later =>
      have first : packet ≠ [] := full packet (List.mem_cons_self ..)
      refine ⟨?_, List.length_take_le .., ?_, ?_⟩
      · by_cases fits : packet.length ≤ length
        · simp [read, fits, List.take_of_length_le fits]
        · simp [read, fits, ← List.append_assoc]
      · by_cases fits : packet.length ≤ length
        · simpa [read, fits] using full.tail
        · intro other member
          simp only [read, fits, if_false, List.mem_cons] at member
          rcases member with rfl | member
          · rw [ne_eq, List.drop_eq_nil_iff]
            exact fits
          · exact full.tail other member
      · intro nothing
        rw [read, List.take_eq_nil_iff] at nothing
        rcases nothing with none | empty
        · omega
        · exact absurd empty first

/-- Whether a fixed size can be read, and what is read, does not depend on the packets. -/
theorem readFixSize_spec {fuel left : Nat} {socket : Socket} (full : socket.Full)
    (enough : left ≤ fuel) :
    if left ≤ socket.flatten.length then
      ∃ later, readFixSize fuel left socket = .ok (socket.flatten.take left, later) ∧
        later.flatten = socket.flatten.drop left ∧ later.Full
    else readFixSize fuel left socket = .error .closed := by
  induction fuel generalizing left socket with
  | zero =>
      obtain rfl : left = 0 := by omega
      simp [readFixSize, full]
  | succ fuel ih =>
      cases left with
      | zero => simp [readFixSize, full]
      | succ left =>
          have taken := read_spec full (show 0 < left + 1 by omega)
          rw [readFixSize]
          generalize read (left + 1) socket = got at taken ⊢
          obtain ⟨bytes, later⟩ := got
          obtain ⟨parts, short, fullLater, atEnd⟩ := taken
          dsimp only at parts short fullLater atEnd ⊢
          by_cases nothing : bytes = []
          · cases atEnd nothing
            simp [nothing]
          · have some : 0 < bytes.length := List.length_pos_of_ne_nil nothing
            have rest := ih fullLater (show left + 1 - bytes.length ≤ fuel by omega)
            have total : socket.flatten.length = bytes.length + later.flatten.length := by
              rw [← parts, List.length_append]
            rw [if_neg nothing]
            by_cases whole : left + 1 ≤ socket.flatten.length
            · rw [if_pos (by omega)] at rest
              obtain ⟨after, result, flat, fullAfter⟩ := rest
              rw [if_pos whole, result]
              refine ⟨after, ?_, ?_, fullAfter⟩
              · rw [← parts, List.take_append, List.take_of_length_le short]
              · rw [flat, ← parts, List.drop_append, List.drop_of_length_le short,
                  List.nil_append]
            · rw [if_neg (by omega)] at rest
              rw [if_neg whole, rest]

/-- What is left of the packets behind some bytes. -/
def Socket.skip : Nat → Socket → Socket
  | _, [] => []
  | count, packet :: later =>
      if packet.length ≤ count then Socket.skip (count - packet.length) later
      else packet.drop count :: later

theorem Socket.skip_zero {socket : Socket} (full : socket.Full) : socket.skip 0 = socket := by
  cases socket with
  | nil => rfl
  | cons packet later =>
      have some : 0 < packet.length := List.length_pos_of_ne_nil (full packet List.mem_cons_self)
      rw [Socket.skip, if_neg (by omega), List.drop_zero]

theorem Socket.flatten_skip (count : Nat) (socket : Socket) :
    (socket.skip count).flatten = socket.flatten.drop count := by
  induction socket generalizing count with
  | nil => simp [Socket.skip]
  | cons packet later ih =>
      rw [Socket.skip, List.flatten_cons]
      split
      next inside =>
        rw [ih, List.drop_append, List.drop_of_length_le inside, List.nil_append]
      next beyond =>
        rw [List.flatten_cons, List.drop_append_of_le_length (by omega)]

theorem Socket.Full.skip {socket : Socket} (full : socket.Full) (count : Nat) :
    (socket.skip count).Full := by
  induction socket generalizing count with
  | nil => exact full
  | cons packet later ih =>
      rw [Socket.skip]
      split
      next => exact ih full.tail _
      next beyond =>
        intro other member
        rcases List.mem_cons.mp member with rfl | member
        · rw [ne_eq, List.drop_eq_nil_iff]
          exact beyond
        · exact full.tail other member

theorem Socket.skip_skip (first second : Nat) (socket : Socket) :
    (socket.skip first).skip second = socket.skip (first + second) := by
  induction socket generalizing first with
  | nil => rfl
  | cons packet later ih =>
      rw [Socket.skip]
      split
      next inside =>
        rw [ih, Socket.skip, if_pos (by omega)]
        congr 1
        omega
      next beyond =>
        rw [Socket.skip, Socket.skip, List.length_drop]
        by_cases within : packet.length - first ≤ second
        · rw [if_pos within, if_pos (by omega)]
          congr 1
          omega
        · rw [if_neg within, if_neg (by omega), List.drop_drop]

theorem length_read_le (length : Nat) (socket : Socket) :
    (read length socket).1.length ≤ length := by
  cases socket with
  | nil => exact Nat.zero_le _
  | cons packet later => exact List.length_take_le ..

/-- A read takes its bytes off the packets. -/
theorem read_eq_skip {length : Nat} {socket : Socket} (full : socket.Full) :
    (read length socket).2 = socket.skip (read length socket).1.length := by
  cases socket with
  | nil => rfl
  | cons packet later =>
      rw [read, Socket.skip, List.length_take]
      by_cases fits : packet.length ≤ length
      · rw [if_pos fits, if_pos (by omega)]
        have same : min length packet.length = packet.length := by omega
        rw [same, Nat.sub_self, Socket.skip_zero full.tail]
      · rw [if_neg fits, if_neg (by omega)]
        have same : min length packet.length = length := by omega
        rw [same]

theorem readFixSize_skip {fuel left : Nat} {socket later : Socket} {bytes : Bytes}
    (full : socket.Full) (received : readFixSize fuel left socket = .ok (bytes, later)) :
    later = socket.skip left := by
  induction fuel generalizing left socket bytes with
  | zero =>
      cases left with
      | zero =>
          cases received
          exact (Socket.skip_zero full).symm
      | succ left => cases received
  | succ fuel ih =>
      cases left with
      | zero =>
          cases received
          exact (Socket.skip_zero full).symm
      | succ left =>
          have behind := @read_eq_skip (left + 1) _ full
          have taken := read_spec full (show 0 < left + 1 by omega)
          rw [readFixSize] at received
          dsimp only at received
          split at received
          next => cases received
          next nonempty =>
            split at received
            next => cases received
            next rest after got =>
              cases received
              have onward := ih taken.2.2.1 got
              rw [behind, Socket.skip_skip] at onward
              rw [onward]
              congr 1
              omega

end Exhy.Http
