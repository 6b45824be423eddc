import Exhy.Library.CString

/-!
# Streaming codecs

A codec takes its input and gives its output in pieces.  Its contract: a call goes on until its
input is used up or its room is full, and all output together is a function of all input.
-/

namespace Library

/-- What a call leaves: the state, how much of the input it used, and what it gave out. -/
structure Called (State : Type) where
  state : State
  consumed : Nat
  produced : Bytes
  isError : Bool := false

/-- The call went on until its input was used up or its room was full. -/
structure Called.Lawful {State : Type} (called : Called State) (input : Bytes) (room : Nat) :
    Prop where
  consumed_le : called.consumed ≤ input.length
  produced_le : called.produced.length ≤ room
  ends : called.consumed = input.length ∨ called.produced.length = room
  noError : called.isError = false

/-- A codec with the state of a new stream.  The last argument of a call says that the input
ends. -/
structure Codec (State : Type) where
  init : State
  call : State → (input : Bytes) → (room : Nat) → (finish : Bool) → Called State

namespace Codec

variable {State : Type}

/-- A state after calls that used up some input and gave out some output.  Once the input ended
the calls only ask for the rest of the output. -/
inductive Reached (codec : Codec State) : State → Bytes → Bytes → Bool → Prop where
  | init : Reached codec codec.init [] [] false
  | call {state : State} {input output : Bytes} {ended : Bool}
      (reached : Reached codec state input output ended) (more : Bytes) {room : Nat}
      (finish : Bool) (positive : 0 < room) (allowed : ended = true → finish = true ∧ more = []) :
      Reached codec (codec.call state more room finish).state
        (input ++ more.take (codec.call state more room finish).consumed)
        (output ++ (codec.call state more room finish).produced) finish

/-- The contract of a codec with the complete output for each input. -/
structure Honours (codec : Codec State) (complete : Bytes → Bytes) : Prop where
  lawful {state : State} {input output : Bytes} {ended : Bool}
    (reached : codec.Reached state input output ended) (more : Bytes) {room : Nat} (finish : Bool)
    (positive : 0 < room) (allowed : ended = true → finish = true ∧ more = []) :
    (codec.call state more room finish).Lawful more room
  beginning {state : State} {input output : Bytes} {ended : Bool}
    (reached : codec.Reached state input output ended) : output <+: complete input
  total {state : State} {input output : Bytes} {ended : Bool}
    (reached : codec.Reached state input output ended) (more : Bytes) {room : Nat}
    (positive : 0 < room) (allowed : ended = true → more = [])
    (roomy : (codec.call state more room true).produced.length < room) :
    output ++ (codec.call state more room true).produced = complete (input ++ more)

/-- The contract as far as the input is the beginning of this one. -/
structure HonoursOn (codec : Codec State) (complete : Bytes → Bytes) (text : Bytes) : Prop where
  lawful {state : State} {input output : Bytes} {ended : Bool}
    (reached : codec.Reached state input output ended) (more : Bytes) {room : Nat} (finish : Bool)
    (positive : 0 < room) (allowed : ended = true → finish = true ∧ more = [])
    (inside : input ++ more <+: text) : (codec.call state more room finish).Lawful more room
  beginning {state : State} {input output : Bytes} {ended : Bool}
    (reached : codec.Reached state input output ended) (inside : input <+: text) :
    output <+: complete input
  total {state : State} {input output : Bytes} {ended : Bool}
    (reached : codec.Reached state input output ended) (more : Bytes) {room : Nat}
    (positive : 0 < room) (allowed : ended = true → more = [])
    (inside : input ++ more <+: text)
    (roomy : (codec.call state more room true).produced.length < room) :
    output ++ (codec.call state more room true).produced = complete (input ++ more)

theorem Honours.on {codec : Codec State} {complete : Bytes → Bytes}
    (honours : codec.Honours complete) (text : Bytes) : codec.HonoursOn complete text where
  lawful reached more _ finish positive allowed _ :=
    honours.lawful reached more finish positive allowed
  beginning reached _ := honours.beginning reached
  total reached more _ positive allowed _ roomy :=
    honours.total reached more positive allowed roomy

/-- The codec takes back what `squeeze` does to an input.  It promises nothing for an input that
`squeeze` does not give. -/
structure Restores (codec : Codec State) (squeeze expand : Bytes → Bytes) : Prop where
  honours : ∀ input, codec.HonoursOn expand (squeeze input)
  inverse : ∀ input, expand (squeeze input) = input

/-! ## The codec that changes nothing -/

/-- The state is what has not been given out yet. -/
def stored : Codec Bytes where
  init := []
  call state input room _ :=
    { state := (state ++ input).drop room
      consumed := input.length
      produced := (state ++ input).take room }

theorem stored_reached {state input output : Bytes} {ended : Bool}
    (reached : stored.Reached state input output ended) : output ++ state = input := by
  induction reached with
  | init => rfl
  | @call state input output ended reached more room finish positive allowed ih =>
      show output ++ (state ++ more).take room ++ (state ++ more).drop room =
        input ++ more.take more.length
      rw [List.append_assoc, List.take_append_drop, ← List.append_assoc, ih, List.take_length]

theorem stored_honours : stored.Honours id where
  lawful reached more room finish positive allowed :=
    { consumed_le := Nat.le_refl _
      produced_le := List.length_take_le ..
      ends := .inl rfl
      noError := rfl }
  beginning reached := ⟨_, stored_reached reached⟩
  total {state input output ended} reached more room positive allowed roomy := by
    change ((state ++ more).take room).length < room at roomy
    change output ++ (state ++ more).take room = input ++ more
    have whole : (state ++ more).length ≤ room := by
      rw [List.length_take] at roomy
      omega
    rw [List.take_of_length_le whole, ← List.append_assoc, stored_reached reached]

end Codec

end Library
