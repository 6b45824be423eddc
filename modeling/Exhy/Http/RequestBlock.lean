import Exhy.Http.Dump
import Exhy.Http.Fragmentation
import Exhy.Http.RequestLine
import Exhy.Http.ResponseReader

/-!
# The header block of a request

The run of the parser of requests, and what its machine performs on a method, on a version and
on the lines of headers.
-/

namespace Exhy.Http.RequestBlock

open Library Machine Http11 RequestLine

/-! ## Runs of the parser -/

section Runs

open HttpRequestParser

/-- What an action does to the parser. -/
def effect (buffer : Bytes) (fpc : Nat) (action : Action) (parser : HttpRequestParser) :
    Option HttpRequestParser :=
  (parser.mParser.callback buffer fpc parser.toParsed action).map fun data =>
    ⟨data, parser.mParser.register fpc action⟩

theorem perform_effect (buffer : Bytes) (fpc : Nat) (actions : List Action)
    (parser : HttpRequestParser) :
    HttpRequestParser.perform buffer fpc actions parser =
      Machine.perform (effect buffer) breaks fpc actions parser := by
  induction actions generalizing parser with
  | nil => rfl
  | cons action later ih =>
      rw [HttpRequestParser.perform, Machine.perform, effect]
      cases parser.mParser.callback buffer fpc parser.toParsed action with
      | none => rfl
      | some data =>
          dsimp only [Option.map_some]
          rw [ih]
          by_cases last : action = .done
          · have broke : breaks action = true := decide_eq_true last
            rw [if_pos last, if_pos broke]
          · have goes : breaks action = false := decide_eq_false last
            rw [if_neg last, goes, if_neg Bool.false_ne_true]

theorem exec_effect (buffer rest : Bytes) (p : Nat) (cs : List (Machine Action))
    (parser : HttpRequestParser) :
    HttpRequestParser.exec buffer rest p cs parser =
      Machine.exec (effect buffer) breaks rest p cs parser := by
  induction rest generalizing p cs parser with
  | nil => rfl
  | cons byte rest ih =>
      rw [HttpRequestParser.exec, Machine.exec]
      cases step cs byte with
      | none => rfl
      | some moved =>
          obtain ⟨next, actions⟩ := moved
          dsimp only
          rw [perform_effect]
          cases Machine.perform (effect buffer) breaks p actions parser with
          | none => rfl
          | some result =>
              obtain ⟨after, broke⟩ := result
              cases broke with
              | true => rfl
              | false => exact ih _ _ _

end Runs

/-! ## States -/

/-- Behind the request line. -/
def blockState : List (Machine Action) := walk versionState (ascii "HTTP/1.1\r\n")

/-- Behind a header. -/
def headerState : List (Machine Action) := walk blockState (ascii "z: \r\n")

def nameState : List (Machine Action) := walk blockState (ascii "z")

/-- Behind the colon. -/
def colonState : List (Machine Action) := walk blockState (ascii "z:")

/-- Behind the colon and its blank. -/
def blankState : List (Machine Action) := walk blockState (ascii "z: ")

/-- In a value: behind a letter and behind a blank. -/
def valueStates : List (List (Machine Action)) :=
  [walk blockState (ascii "z: v"), walk blockState (ascii "z: v ")]

/-- Behind the `\r` of a header. -/
def returnState : List (Machine Action) := walk blockState (ascii "z: \r")

/-- Behind the `\r` of the empty line. -/
def endState : List (Machine Action) := walk blockState (ascii "\r")

def doneState : List (Machine Action) := walk blockState (ascii "\r\n")

/-- The bytes of a token. -/
def nameBytes : List (UInt8 × UInt8) :=
  [(0x21, 0x21), (0x23, 0x27), (0x2A, 0x2B), (0x2D, 0x2E), (0x30, 0x39), (0x41, 0x5A),
    (0x5E, 0x7A), (0x7C, 0x7C), (0x7E, 0x7E)]

/-- The bytes that are no control characters. -/
def valueBytes : List (UInt8 × UInt8) := [(0x20, 0x7E), (0x80, 0xFF)]

/-- Those of them that are no blanks. -/
def letterBytes : List (UInt8 × UInt8) := [(0x21, 0x7E), (0x80, 0xFF)]

/-- A method of letters and digits. -/
def methodText (text : Bytes) : Prop :=
  ∀ byte ∈ text, inRanges (Grammar.upper ++ Grammar.digit) byte = true

instance (text : Bytes) : Decidable (methodText text) :=
  inferInstanceAs (Decidable (∀ byte ∈ text, _))

theorem trace_method (uri_relaxed : Bool) : ∀ entry ∈ HTTP_METHOD_MAP, methodText entry.2 →
    trace [Grammar.main uri_relaxed] (entry.2 ++ [0x20]) =
      some (spanActions .mark [.request_method] entry.2.length, targetState uri_relaxed) := by
  cases uri_relaxed <;> decide +kernel

theorem trace_version {version : UInt8} (known : version = 0x10 ∨ version = 0x11) :
    trace versionState (dumpVersion version ++ [0x0D]) =
        some (spanActions .mark [.http_version] (dumpVersion version).length,
          walk versionState (ascii "HTTP/1.1\r")) ∧
      step (walk versionState (ascii "HTTP/1.1\r")) 0x0A = some (blockState, []) := by
  rcases known with rfl | rfl
  · decide +kernel
  · decide +kernel

/-- The beginning of a line. -/
def lineStates : List (List (Machine Action)) := [blockState, headerState]

/-- What the machine performs on the lines of headers. -/
structure HeaderMoves : Prop where
  opens_name : ∀ start ∈ lineStates,
    movesAmong start nameBytes [nameState] [.start_field] = true
  more_of_name : ∀ inner ∈ [nameState], movesAmong inner nameBytes [nameState] [] = true
  behind_name : ∀ inner ∈ [nameState], step inner 0x3A = some (colonState, [.write_field])
  behind_colon : step colonState 0x20 = some (blankState, [.start_value])
  opens_value : movesAmong blankState letterBytes valueStates [.start_value] = true
  more_of_value : ∀ inner ∈ valueStates, movesAmong inner valueBytes valueStates [] = true
  behind_value : (∀ inner ∈ valueStates, step inner 0x0D = some (returnState, [.write_value])) ∧
    step blankState 0x0D = some (returnState, [.start_value, .write_value]) ∧
    step returnState 0x0A = some (headerState, [])
  /-- The empty line begins as a name does: `\r` is no separator. -/
  steps_end : (∀ start ∈ lineStates, step start 0x0D = some (endState, [.start_field])) ∧
    step endState 0x0A = some (doneState, [.done])
  doneState_final : final doneState = true

theorem headerMoves : HeaderMoves where
  opens_name := by
    have known : ∀ start ∈ lineStates, ∀ code ∈ bounds (nameBytes :: start.flatMap firsts),
        inRanges nameBytes code = true →
          goesAmong [nameState] [.start_field] (step start code) = true := by
      decide +kernel
    exact fun start isStart => movesAmong_of_bounds (known start isStart)
  more_of_name := by decide +kernel
  behind_name := by decide +kernel
  behind_colon := by decide +kernel
  opens_value := movesAmong_of_bounds (by decide +kernel)
  more_of_value := by
    have known : ∀ inner ∈ valueStates, ∀ code ∈ bounds (valueBytes :: inner.flatMap firsts),
        inRanges valueBytes code = true → goesAmong valueStates [] (step inner code) = true := by
      decide +kernel
    exact fun inner isInner => movesAmong_of_bounds (known inner isInner)
  behind_value := by decide +kernel
  steps_end := by decide +kernel
  doneState_final := by decide +kernel

example : trace blockState (ascii "Host") = some ([.start_field] :: List.replicate 3 [], nameState) := by
  decide +kernel

end Exhy.Http.RequestBlock
