import Exhy.Http.Dump
import Exhy.Http.ResponseReader
import Exhy.Library.Trace

/-!
# The header block of a response

What the machine of the responses performs on a status line and on the lines of headers.  The
names `connection`, `content-length` and `transfer-encoding` have rules of their own: a name is
followed letter by letter, as long as it is the beginning of one of them.
-/

namespace Exhy.Http.HeaderBlock

open Library Machine Httpclient

/-! ## The status line -/

/-- Behind `HTTP/1.`. -/
def versionState : List (Machine Action) := walk [Grammar.main] (ascii "HTTP/1.")

/-- Behind a version and its blank. -/
def statusState : List (Machine Action) := walk [Grammar.main] (ascii "HTTP/1.1 ")

/-- In the digits of the status. -/
def digitState : List (Machine Action) := walk [Grammar.main] (ascii "HTTP/1.1 2")

/-- Behind the blank of the status. -/
def reasonState : List (Machine Action) := walk [Grammar.main] (ascii "HTTP/1.1 2 ")

/-- In the reason. -/
def textState : List (Machine Action) := walk [Grammar.main] (ascii "HTTP/1.1 2 O")

/-- Behind the status line. -/
def blockState : List (Machine Action) := walk [Grammar.main] (ascii "HTTP/1.1 2 O\r\n")

/-- The bytes of a text that ends with its line. -/
def inLine : List (UInt8 × UInt8) := [(0x00, 0x09), (0x0B, 0x0C), (0x0E, 0xFF)]

/-- What the machine performs on a status line. -/
structure StatusMoves : Prop where
  protocol : trace [Grammar.main] (ascii "HTTP/1.") =
    some ([.mark] :: List.replicate 6 [], versionState)
  version_digit : trace versionState (ascii "0 ") = some ([[], [.http_version]], statusState) ∧
    trace versionState (ascii "1 ") = some ([[], [.http_version]], statusState)
  first_of_status : moves statusState Http11.Grammar.digit digitState [.mark] = true
  more_of_status : moves digitState Http11.Grammar.digit digitState [] = true
  behind_status : moves digitState [(0x20, 0x20)] reasonState [.status_code] = true
  first_of_reason : moves reasonState inLine textState [.mark] = true
  more_of_reason : moves textState inLine textState [] = true
  behind_reason : trace textState (ascii "\r\n") = some ([[.reason_phrase], []], blockState)

theorem statusMoves : StatusMoves where
  protocol := by decide +kernel
  version_digit := by decide +kernel
  first_of_status := moves_of_bounds (by decide +kernel)
  more_of_status := moves_of_bounds (by decide +kernel)
  behind_status := moves_of_bounds (by decide +kernel)
  first_of_reason := moves_of_bounds (by decide +kernel)
  more_of_reason := moves_of_bounds (by decide +kernel)
  behind_reason := by decide +kernel

/-! ## The beginning of a line -/

/-- What came before the line. -/
inductive LineStart where
  | status
  | header
  | close
  deriving DecidableEq

/-- The actions on the first byte of the line, before its own. -/
def LineStart.pending : LineStart → List Action
  | .status | .header => []
  | .close => [.write_connection_close]

def LineStart.state : LineStart → List (Machine Action)
  | .status => blockState
  | .header => walk blockState (ascii "z: \r\n")
  | .close => walk blockState (ascii "connection: close\r\n")

/-- Behind the `\r` of the empty line. -/
def returnState : List (Machine Action) := walk blockState (ascii "\r")

def doneState : List (Machine Action) := walk blockState (ascii "\r\n")

theorem empty_line (start : LineStart) :
    moves start.state [(0x0D, 0x0D)] returnState start.pending = true := by
  cases start <;> decide +kernel

theorem end_of_block : moves returnState [(0x0A, 0x0A)] doneState [.done] = true :=
  moves_of_bounds (by decide +kernel)

/-! ## Names -/

/-- The names with rules of their own. -/
def special : List Bytes := [ascii "transfer-encoding", ascii "connection", ascii "content-length"]

/-- The bytes that some rule of a header tells apart from other letters. -/
def letters : Bytes := ascii "transfe-codiglhuk"

/-- One byte for all that no rule of a header tells apart. -/
def letter (byte : UInt8) : UInt8 :=
  if toLower byte ∈ letters then toLower byte
  else if inRanges Http11.Grammar.digit byte then 0x30
  else 0x7A

/-- The machine in a name of which `part` has been read. -/
def nameState (part : Bytes) : List (Machine Action) :=
  if special.any part.isPrefixOf then walk blockState part else walk blockState (ascii "z")

/-- Behind the colon. -/
def colonState : List (Machine Action) := walk blockState (ascii "z:")

/-- The beginnings of the names with rules of their own. -/
def beginnings : List Bytes :=
  special.flatMap fun name => (List.range name.length).map fun count => name.take (count + 1)

theorem letter_alike {byte : UInt8} (token : inRanges Grammar.tokenBytes byte = true) :
    Alike byte (letter byte) (blockState.flatMap classes) := by
  have all : ∀ code < 256, inRanges Grammar.tokenBytes code.toUInt8 = true →
      Alike code.toUInt8 (letter code.toUInt8) (distinct (blockState.flatMap classes)) := by
    decide +kernel
  have here := all byte.toNat (UInt8.toNat_lt byte) (by simpa using token)
  intro ranges member
  simpa using here ranges (mem_distinct.mpr member)

theorem letter_mem (byte : UInt8) : letter byte ∈ letters ++ ascii "0z" := by
  rw [letter]
  split
  next member => exact List.mem_append_left _ member
  next =>
    split
    · decide
    · decide

theorem first_letter {start : LineStart} (opened : start ≠ .close) : ∀ code ∈ letters ++ ascii "0z",
    step start.state code = some (nameState [code], [.start_field]) := by
  cases start with
  | status | header => decide +kernel
  | close => exact absurd rfl opened

theorem more_letters : ∀ part ∈ beginnings, ∀ code ∈ letters ++ ascii "0z",
    step (nameState part) code = some (nameState (part ++ [code]), []) := by
  -- A letter with which no name of `special` goes on is like `z`.
  have cases : ∀ part ∈ beginnings, ∀ code ∈ letters ++ ascii "0z",
      (Alike 0x7A code ((nameState part).flatMap firsts) ∧
        special.any (part ++ [code]).isPrefixOf = false) ∨
          step (nameState part) code = some (nameState (part ++ [code]), []) := by
    decide +kernel
  have other : ∀ part ∈ beginnings,
      step (nameState part) 0x7A = some (walk blockState (ascii "z"), []) := by
    decide +kernel
  intro part isPart code isLetter
  rcases cases part isPart code isLetter with ⟨alike, ordinary⟩ | continues
  · rw [← step_congr alike, other part isPart, nameState, if_neg (Bool.eq_false_iff.mp ordinary)]
  · exact continues

/-- What the machine performs on a name with no rule of its own, and on the colon behind names. -/
structure NameMoves : Prop where
  other_letters : ∀ code ∈ letters ++ ascii "0z",
    step (walk blockState (ascii "z")) code = some (walk blockState (ascii "z"), [])
  colon_of_beginning : ∀ part ∈ beginnings, part ∉ special →
    step (nameState part) 0x3A = some (colonState, [.write_field])
  colon_of_other : step (walk blockState (ascii "z")) 0x3A = some (colonState, [.write_field])

theorem nameMoves : NameMoves where
  other_letters := by decide +kernel
  colon_of_beginning := by decide +kernel
  colon_of_other := by decide +kernel

example : trace blockState (ascii "Te:") =
    some ([[.start_field], [], [.write_field]], colonState) := by
  decide +kernel

/-- A name may follow that has no rule of its own. -/
theorem isPrefixOf_of_append {part more name : Bytes}
    (isPrefix : (part ++ more).isPrefixOf name = true) : part.isPrefixOf name = true :=
  List.isPrefixOf_iff_prefix.mpr
    ((List.prefix_append part more).trans (List.isPrefixOf_iff_prefix.mp isPrefix))

theorem mem_beginnings {part name : Bytes} (isName : name ∈ special) (nonempty : part ≠ [])
    (isPrefix : part.isPrefixOf name = true) : part ∈ beginnings := by
  have isTaken := List.isPrefixOf_iff_prefix.mp isPrefix
  have some := List.length_pos_of_ne_nil nonempty
  have short := isTaken.length_le
  refine List.mem_flatMap.mpr ⟨name, isName, List.mem_map.mpr ⟨part.length - 1, ?_, ?_⟩⟩
  · rw [List.mem_range]
    omega
  · rw [Nat.sub_add_cancel some, ← List.prefix_iff_eq_take.mp isTaken]

theorem step_nameState {part : Bytes} (nonempty : part ≠ []) {code : UInt8}
    (isLetter : code ∈ letters ++ ascii "0z") :
    step (nameState part) code = some (nameState (part ++ [code]), []) := by
  by_cases begins : special.any part.isPrefixOf = true
  · obtain ⟨name, isName, isPrefix⟩ := List.any_eq_true.mp begins
    exact more_letters part (mem_beginnings isName nonempty isPrefix) code isLetter
  · have longer : ¬special.any (part ++ [code]).isPrefixOf = true := by
      intro still
      obtain ⟨name, isName, isPrefix⟩ := List.any_eq_true.mp still
      exact begins (List.any_eq_true.mpr ⟨name, isName, isPrefixOf_of_append isPrefix⟩)
    rw [nameState, nameState, if_neg begins, if_neg longer]
    exact nameMoves.other_letters code isLetter

theorem colon_of_nameState {part : Bytes} (nonempty : part ≠ []) (ordinary : part ∉ special) :
    step (nameState part) 0x3A = some (colonState, [.write_field]) := by
  by_cases begins : special.any part.isPrefixOf = true
  · obtain ⟨name, isName, isPrefix⟩ := List.any_eq_true.mp begins
    exact nameMoves.colon_of_beginning part (mem_beginnings isName nonempty isPrefix) ordinary
  · rw [nameState, if_neg begins]
    exact nameMoves.colon_of_other

theorem nameState_classes (part : Bytes) :
    (nameState part).flatMap classes ⊆ blockState.flatMap classes := by
  rw [nameState]
  split
  · exact classes_of_walk ..
  · exact classes_of_walk ..

theorem step_letter {cs : List (Machine Action)} {byte : UInt8}
    (known : cs.flatMap classes ⊆ blockState.flatMap classes)
    (token : inRanges Grammar.tokenBytes byte = true) : step cs byte = step cs (letter byte) :=
  step_alike fun ranges member => letter_alike token ranges (known member)

theorem trace_more_of_name {later : Bytes} (part : Bytes) (nonempty : part ≠ [])
    (tokens : ∀ byte ∈ later, inRanges Grammar.tokenBytes byte = true) :
    trace (nameState part) later =
      some (List.replicate later.length [], nameState (part ++ later.map letter)) := by
  induction later generalizing part with
  | nil => rw [List.map_nil, List.append_nil, trace, List.length_nil, List.replicate_zero]
  | cons byte rest ih =>
      have stepped : step (nameState part) byte = some (nameState (part ++ [letter byte]), []) := by
        rw [step_letter (nameState_classes part) (tokens byte List.mem_cons_self)]
        exact step_nameState nonempty (letter_mem byte)
      have onward := ih (part ++ [letter byte]) (List.append_ne_nil_of_right_ne_nil _ (List.cons_ne_nil _ _))
        fun other member => tokens other (List.mem_cons_of_mem _ member)
      rw [List.append_assoc, List.singleton_append] at onward
      exact trace_cons stepped onward

/-- A name with its colon. -/
theorem trace_name {start : LineStart} (opened : start ≠ .close) {name : Bytes}
    (nonempty : name ≠ []) (tokens : ∀ byte ∈ name, inRanges Grammar.tokenBytes byte = true)
    (ordinary : name.map letter ∉ special) :
    trace start.state (name ++ [0x3A]) =
      some ([.start_field] :: List.replicate (name.length - 1) [] ++ [[.write_field]],
        colonState) := by
  obtain ⟨byte, later, rfl⟩ := List.exists_cons_of_ne_nil nonempty
  have known : start.state.flatMap classes ⊆ blockState.flatMap classes := by
    cases start with
    | status => exact List.Subset.refl _
    | header | close => exact classes_of_walk ..
  have first : step start.state byte = some (nameState [letter byte], [.start_field]) := by
    rw [step_letter known (tokens byte List.mem_cons_self)]
    exact first_letter opened _ (letter_mem byte)
  have more := trace_more_of_name [letter byte] (List.cons_ne_nil _ _)
    fun other member => tokens other (List.mem_cons_of_mem _ member)
  have behind : trace colonState [] = some ([], colonState) := rfl
  have colon := trace_cons
    (colon_of_nameState (List.cons_ne_nil (letter byte) (later.map letter)) ordinary) behind
  exact trace_append (trace_cons first more) colon

/-! ## Lines -/

/-- Behind the colon and its blank. -/
def blankState : List (Machine Action) := walk blockState (ascii "z: ")

def valueState : List (Machine Action) := walk blockState (ascii "z: v")

/-- Behind the `\r` of a header. -/
def lineEnd : List (Machine Action) := walk blockState (ascii "z: \r")

/-- The bytes that no white space is among. -/
def noBlank : List (UInt8 × UInt8) := [(0x00, 0x08), (0x0E, 0x1F), (0x21, 0xFF)]

/-- What the machine performs on the value of a header. -/
structure ValueMoves : Prop where
  blank : moves colonState [(0x20, 0x20)] blankState [.start_value] = true
  first_of_value : moves blankState noBlank valueState [.start_value] = true
  more_of_value : moves valueState inLine valueState [] = true
  behind_value :
    trace valueState (ascii "\r\n") = some ([[.write_value], []], LineStart.header.state) ∧
      trace blankState (ascii "\r\n") =
        some ([[.start_value, .write_value], []], LineStart.header.state)

theorem valueMoves : ValueMoves where
  blank := moves_of_bounds (by decide +kernel)
  first_of_value := moves_of_bounds (by decide +kernel)
  more_of_value := moves_of_bounds (by decide +kernel)
  behind_value := by decide +kernel

/-- The actions on a value of some length and on the line end; `last` are those on the byte
behind the value before its own. -/
def valueActions (last : List Action) : Nat → List (List Action)
  | 0 => [[.start_value, .write_value], []]
  | length + 1 => [.start_value] :: List.replicate length [] ++ [last ++ [.write_value], []]

/-- The actions on the line of a header. -/
def lineActions (start : LineStart) (last : List Action) (name value : Nat) :
    List (List Action) :=
  (start.pending ++ [.start_field]) :: List.replicate (name - 1) [] ++ [[.write_field]] ++
    ([.start_value] :: valueActions last value)

theorem trace_value {value : Bytes} (inside : ∀ byte ∈ value, inRanges inLine byte = true)
    (starts : ∀ byte ∈ value.head?, inRanges noBlank byte = true) :
    trace blankState (value ++ ascii "\r\n") =
      some (valueActions [] value.length, LineStart.header.state) := by
  cases value with
  | nil => exact valueMoves.behind_value.2
  | cons byte rest =>
      have first := trace_moves valueMoves.first_of_value (starts byte rfl)
      have more := trace_loop valueMoves.more_of_value fun other member =>
        inside other (List.mem_cons_of_mem byte member)
      have whole := trace_append (trace_append first more) valueMoves.behind_value.1
      rw [List.length_cons, valueActions]
      exact whole

/-- A header that has no rule of its own. -/
theorem trace_line {start : LineStart} (opened : start ≠ .close) {name value : Bytes}
    (nonempty : name ≠ []) (tokens : ∀ byte ∈ name, inRanges Grammar.tokenBytes byte = true)
    (ordinary : name.map letter ∉ special) (inside : ∀ byte ∈ value, inRanges inLine byte = true)
    (starts : ∀ byte ∈ value.head?, inRanges noBlank byte = true) :
    trace start.state (headerLine (name, value)) =
      some (lineActions start [] name.length value.length, LineStart.header.state) := by
  have quiet : start.pending = [] := by
    cases start with
    | status | header => rfl
    | close => exact absurd rfl opened
  have parts : headerLine (name, value) =
      name ++ [0x3A] ++ ([0x20] ++ (value ++ ascii "\r\n")) := by
    simp [headerLine, show ascii ": " = [0x3A, 0x20] from rfl]
  have named := trace_name opened nonempty tokens ordinary
  have blanks : trace colonState [0x20] = some ([[.start_value]], blankState) :=
    trace_moves valueMoves.blank rfl
  rw [parts, lineActions, quiet]
  exact trace_append named (trace_append blanks (trace_value inside starts))

/-- The line with which a response says that it closes the connection. -/
theorem trace_close {start : LineStart} (opened : start ≠ .close) :
    trace start.state (headerLine (ascii "connection", ascii "close")) =
      some (lineActions start [] 10 5, LineStart.close.state) := by
  cases start with
  | status | header => decide +kernel
  | close => exact absurd rfl opened

theorem trace_keep_alive {start : LineStart} (opened : start ≠ .close) :
    trace start.state (headerLine (ascii "connection", ascii "keep-alive")) =
      some (lineActions start [] 10 10, LineStart.header.state) := by
  cases start with
  | status | header => decide +kernel
  | close => exact absurd rfl opened

/-- In the digits of a length. -/
def lengthState : List (Machine Action) := walk blockState (ascii "content-length: 1")

/-- What the machine performs on the line with the length of the body. -/
structure LengthMoves : Prop where
  length_name (start : LineStart) : trace start.state (ascii "content-length: ") =
    some ((start.pending ++ [.start_field]) :: List.replicate 13 [] ++ [[.write_field]] ++
      [[.start_value]], walk blockState (ascii "content-length: "))
  first_of_length : moves (walk blockState (ascii "content-length: ")) Http11.Grammar.digit
    lengthState [.start_value] = true
  more_of_length : moves lengthState Http11.Grammar.digit lengthState [] = true
  behind_length : trace lengthState (ascii "\r\n") =
    some ([[.write_content_len, .write_value], []], LineStart.header.state)

theorem lengthMoves : LengthMoves where
  length_name start := by cases start <;> decide +kernel
  first_of_length := moves_of_bounds (by decide +kernel)
  more_of_length := moves_of_bounds (by decide +kernel)
  behind_length := by decide +kernel

/-- The line with the length of the body. -/
theorem trace_length (start : LineStart) {digits : Bytes} (nonempty : digits ≠ [])
    (areDigits : ∀ byte ∈ digits, inRanges Http11.Grammar.digit byte = true) :
    trace start.state (headerLine (ascii "content-length", digits)) =
      some (lineActions start [.write_content_len] 14 digits.length, LineStart.header.state) := by
  obtain ⟨digit, later, rfl⟩ := List.exists_cons_of_ne_nil nonempty
  have parts : headerLine (ascii "content-length", digit :: later) =
      ascii "content-length: " ++ ([digit] ++ later ++ ascii "\r\n") := by
    simp [headerLine, ascii]
  have first := trace_moves lengthMoves.first_of_length (areDigits digit List.mem_cons_self)
  have more := trace_loop lengthMoves.more_of_length fun other member =>
    areDigits other (List.mem_cons_of_mem digit member)
  rw [parts]
  exact (trace_append (lengthMoves.length_name start)
    (trace_append (trace_append first more) lengthMoves.behind_length)).trans (by
      simp [lineActions, valueActions])

/-! ## What the parser makes of a line -/

open HttpResponseParser

/-- The parser has the response so far, with no error and no body in chunks. -/
structure Knows (response : HttpResponse) (place : Nat) (parser : HttpResponseParser) : Prop where
  response : parser.m_data = response
  error : parser.m_error = 0
  chunked : parser.mParser.chunked = false
  inside : Inside place parser.mParser

/-- The parser behind the pending actions of a line. -/
def LineStart.flush (start : LineStart) (parser : HttpResponseParser) : HttpResponseParser :=
  match start with
  | .status | .header => parser
  | .close => parser.registers ({ · with close := true })

section Effects

variable {buffer rest name value : Bytes} {place : Nat} {parser : HttpResponseParser}
  {response : HttpResponse}

theorem perform_pending (start : LineStart) (later : List Action) :
    perform (effect buffer) breaks place (start.pending ++ later) parser =
      perform (effect buffer) breaks place later (start.flush parser) := by
  cases start <;> rfl

theorem Knows.flush (knows : Knows response place parser) (start : LineStart) :
    Knows response place (start.flush parser) := by
  cases start with
  | status | header => exact knows
  | close =>
      have inside := knows.inside
      exact ⟨knows.response, knows.error, knows.chunked, inside.nread, inside.mark,
        inside.field_start, inside.field_pos, inside.field_len⟩

/-- The parser that has read a name at `start` and is at the beginning of a value. -/
def fielded (parser : HttpResponseParser) (start length mark : Nat) : HttpResponseParser :=
  parser.registers ({ · with field_start := start, field_len := length, mark := mark })

theorem Knows.fielded (knows : Knows response place parser) {length mark stop : Nat}
    (behind : place + length ≤ mark) (further : mark ≤ stop) :
    Knows response stop (fielded parser place length mark) := by
  refine ⟨knows.response, knows.error, knows.chunked, knows.inside.nread, further, ?_, ?_, ?_⟩
  · show place ≤ stop
    omega
  · show 0 ≤ (length : Int)
    omega
  · show (length : Int) ≤ stop
    omega

/-- A header of the response. -/
theorem Knows.setHeader (knows : Knows response place parser) (name value : Bytes) :
    Knows (response.setHeader name value) place
      { parser with m_data := parser.m_data.setHeader name value } :=
  ⟨congrArg (·.setHeader name value) knows.response, knows.error, knows.chunked, knows.inside⟩

/-- The actions on a name and its colon. -/
theorem performAll_name (start : LineStart) (nonempty : name ≠ []) :
    performAll (effect buffer) breaks place ((start.pending ++ [.start_field]) ::
        List.replicate (name.length - 1) [] ++ [[.write_field]] ++ [[.start_value]]) parser =
      some (fielded (start.flush parser) place name.length (place + name.length + 1)) := by
  have some := List.length_pos_of_ne_nil nonempty
  have first : perform (effect buffer) breaks place (start.pending ++ [.start_field]) parser =
      Option.some ((start.flush parser).registers ({ · with field_start := place }), false) := by
    rw [perform_pending]
    rfl
  have length : place + 1 + (name.length - 1) = place + name.length := by omega
  rw [List.append_assoc, List.cons_append, performAll_cons first, performAll_append,
    performAll_quiet, Option.bind_some, List.length_replicate, length]
  have size : ((place + name.length : Nat) : Int) - place = name.length := by omega
  show Option.some (((start.flush parser).registers ({ · with field_start := place })).registers
    ({ · with field_len := ((place + name.length : Nat) : Int) - place })
    |>.registers ({ · with mark := place + name.length + 1 })) = _
  rw [size]
  rfl

theorem perform_write_value (knows : Knows response place parser) (nonempty : name ≠ [])
    (field : buffer.drop parser.mParser.field_start = name ++ rest)
    (flen : parser.mParser.field_len = name.length) {after : Bytes}
    (start : buffer.drop parser.mParser.mark = value ++ after)
    (vlen : place = parser.mParser.mark + value.length) :
    ∃ next, perform (effect buffer) breaks place [.write_value] parser = some (next, false) ∧
      Knows (response.setHeader name value) place next := by
  refine ⟨_, ?_, knows.setHeader name value⟩
  rw [perform_cons (effect_write_value nonempty field flen start vlen) rfl]
  rfl

/-- The byte behind a value, which may be the length of the body. -/
theorem perform_last {last : List Action} (number : last = [] ∨ last = [.write_content_len])
    (knows : Knows response place parser) (nonempty : name ≠ [])
    (field : buffer.drop parser.mParser.field_start = name ++ rest)
    (flen : parser.mParser.field_len = name.length) {after : Bytes}
    (start : buffer.drop parser.mParser.mark = value ++ after)
    (vlen : place = parser.mParser.mark + value.length) :
    ∃ next, perform (effect buffer) breaks place (last ++ [.write_value]) parser =
        some (next, false) ∧ Knows (response.setHeader name value) place next := by
  rcases number with rfl | rfl
  · exact perform_write_value knows nonempty field flen start vlen
  · have counted : Knows response place (parser.registers
        ({ · with content_len := toInt32 (strtol 10 (buffer.drop parser.mParser.mark)) })) := by
      have inside := knows.inside
      exact ⟨knows.response, knows.error, knows.chunked, inside.nread, inside.mark,
        inside.field_start, inside.field_pos, inside.field_len⟩
    obtain ⟨next, performed, knowsNext⟩ :=
      perform_write_value counted nonempty field flen start vlen
    refine ⟨next, ?_, knowsNext⟩
    rw [List.singleton_append, perform_cons rfl rfl]
    exact performed

/-- The actions on a value and on the line end. -/
theorem performAll_value {last : List Action} (number : last = [] ∨ last = [.write_content_len])
    (knows : Knows response place parser) (nonempty : name ≠ []) {after : Bytes}
    (field : buffer.drop place = name ++ rest)
    (start : buffer.drop (place + name.length + 2) = value ++ after) :
    ∃ next, performAll (effect buffer) breaks (place + name.length + 2)
        (valueActions last value.length)
        (fielded parser place name.length (place + name.length + 1)) = some next ∧
      Knows (response.setHeader name value) (place + name.length + 2 + value.length + 2) next := by
  have marked : ∀ stop, place + name.length + 2 ≤ stop →
      Knows response stop (fielded parser place name.length (place + name.length + 2)) :=
    fun stop further => knows.fielded (Nat.le_add_right _ 2) further
  have onward : ∀ {stop more : Nat} {after : HttpResponseParser}, stop ≤ more →
      Knows (response.setHeader name value) stop after →
      Knows (response.setHeader name value) more after :=
    fun further knows => ⟨knows.response, knows.error, knows.chunked, knows.inside.mono further⟩
  cases value with
  | nil =>
      obtain ⟨next, performed, knowsNext⟩ := perform_write_value
        (marked (place + name.length + 2) (Nat.le_refl _)) nonempty field rfl start rfl
      refine ⟨next, ?_, onward (Nat.le_add_right _ 2) knowsNext⟩
      have both : perform (effect buffer) breaks (place + name.length + 2)
          [.start_value, .write_value]
          (fielded parser place name.length (place + name.length + 1)) = some (next, false) := by
        rw [perform_cons rfl rfl]
        exact performed
      rw [List.length_nil, valueActions, performAll_cons both]
      rfl
  | cons byte later =>
      have length : place + name.length + 2 + 1 + later.length =
          place + name.length + 2 + (byte :: later).length := by
        rw [List.length_cons]
        omega
      obtain ⟨next, performed, knowsNext⟩ := perform_last number
        (marked (place + name.length + 2 + (byte :: later).length) (Nat.le_add_right _ _)) nonempty
        field rfl start rfl
      refine ⟨next, ?_, onward (Nat.le_add_right _ 2) knowsNext⟩
      have first : perform (effect buffer) breaks (place + name.length + 2) [.start_value]
          (fielded parser place name.length (place + name.length + 1)) =
            some (fielded parser place name.length (place + name.length + 2), false) := rfl
      rw [List.length_cons, valueActions, List.cons_append, performAll_cons first,
        performAll_append, performAll_quiet, Option.bind_some, List.length_replicate, length,
        performAll_cons performed]
      rfl

/-- The line of a header, as a run of the parser. -/
theorem exec_line {start : LineStart} {mid : List (Machine Action)} {last : List Action}
    (number : last = [] ∨ last = [.write_content_len])
    (traced : trace start.state (headerLine (name, value)) =
      some (lineActions start last name.length value.length, mid))
    (knows : Knows response place parser) (nonempty : name ≠ [])
    (here : buffer.drop place = headerLine (name, value) ++ rest) :
    ∃ next, exec (effect buffer) breaks (headerLine (name, value) ++ rest) place start.state parser =
        exec (effect buffer) breaks rest (place + (headerLine (name, value)).length) mid next ∧
      Knows (response.setHeader name value) (place + (headerLine (name, value)).length) next := by
  have length : (headerLine (name, value)).length = name.length + 2 + value.length + 2 := by
    simp [headerLine, ascii]
    omega
  have field : buffer.drop place = name ++ (ascii ": " ++ value ++ ascii "\r\n" ++ rest) := by
    simp only [here, headerLine, List.append_assoc]
  have begins : buffer.drop (place + name.length + 2) = value ++ (ascii "\r\n" ++ rest) := by
    rw [← List.drop_drop, drop_behind field]
    simp [ascii]
  obtain ⟨next, performed, knowsNext⟩ := performAll_value number (knows.flush start) nonempty field
    begins
  have total : place + (headerLine (name, value)).length =
      place + name.length + 2 + value.length + 2 := by
    rw [length]
    omega
  have named : (lineActions start last name.length value.length) =
      ((start.pending ++ [.start_field]) :: List.replicate (name.length - 1) [] ++ [[.write_field]] ++
        [[.start_value]]) ++ valueActions last value.length := by
    simp [lineActions]
  have count : place + ((start.pending ++ [Action.start_field]) ::
      List.replicate (name.length - 1) [] ++ [[Action.write_field]] ++
        [[Action.start_value]]).length = place + name.length + 2 := by
    have some := List.length_pos_of_ne_nil nonempty
    simp only [List.length_append, List.length_cons, List.length_replicate, List.length_nil]
    omega
  refine ⟨next, exec_trace traced ?_ rest, ?_⟩
  · rw [named, performAll_append, performAll_name start nonempty, Option.bind_some, count, performed]
  · rw [total]
    exact knowsNext

end Effects

end Exhy.Http.HeaderBlock
