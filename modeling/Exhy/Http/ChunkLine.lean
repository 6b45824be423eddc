import Exhy.Http.ResponseReader
import Exhy.Http.Stream

/-!
# The line of a chunk

The size of a chunk in hexadecimal digits, its extensions, and the line end.  The parser of
responses reads such a line when it starts anew, and takes each extension for a header.
-/

namespace Exhy.Http

open Library Machine Httpclient

/-! ## The wire format -/

/-- `;name` or `;name=value`. -/
structure Extension where
  name : Bytes
  value : Option Bytes
  name_some : name ≠ []
  value_some : value ≠ some []
  name_token : ∀ byte ∈ name, inRanges Grammar.tokenBytes byte = true
  value_token : ∀ byte ∈ value.getD [], inRanges Grammar.tokenBytes byte = true

def Extension.bytes (extension : Extension) : Bytes :=
  0x3B :: extension.name ++
    match extension.value with
    | none => []
    | some value => 0x3D :: value

/-- A chunk, with the digits of its size as the sender writes them. -/
structure Chunk where
  digits : Bytes
  extensions : List Extension
  payload : Bytes
  digits_some : digits ≠ []
  digits_hex : ∀ byte ∈ digits, inRanges Http11.Grammar.xdigit byte = true
  size : readDigits 16 0 digits = payload.length
  small : payload.length < 2 ^ 31 - 2

namespace Chunk

def line (chunk : Chunk) : Bytes :=
  chunk.digits ++ chunk.extensions.flatMap Extension.bytes ++ ascii "\r\n"

def bytes (chunk : Chunk) : Bytes := chunk.line ++ chunk.payload ++ ascii "\r\n"

end Chunk

/-! ## The moves of the machine -/

namespace ChunkLine

/-- What is read and not yet known to the parser. -/
inductive Pending where
  | size
  | name
  | value
  deriving DecidableEq

/-- The actions on the byte behind. -/
def Pending.actions : Pending → List Action
  | .size => [.chunk_size]
  | .name => [.write_field, .start_value, .write_value]
  | .value => [.write_value]

def Pending.state : Pending → List (Machine Action)
  | .size => walk [Grammar.main] (ascii "0")
  | .name => walk [Grammar.main] (ascii "0;a")
  | .value => walk [Grammar.main] (ascii "0;a=b")

/-- Behind `;`. -/
def extensionState : List (Machine Action) := walk [Grammar.main] (ascii "0;")

/-- Behind `=`. -/
def equalState : List (Machine Action) := walk [Grammar.main] (ascii "0;a=")

/-- Behind `\r`. -/
def returnState : List (Machine Action) := walk [Grammar.main] (ascii "0\r")

def doneState : List (Machine Action) := walk [Grammar.main] (ascii "0\r\n")

/-- What the machine performs on the line. -/
structure LineMoves : Prop where
  first_digit : moves [Grammar.main] Http11.Grammar.xdigit Pending.size.state [.mark] = true
  more_digits : moves Pending.size.state Http11.Grammar.xdigit Pending.size.state [] = true
  semicolon (pending : Pending) :
    moves pending.state [(0x3B, 0x3B)] extensionState pending.actions = true
  first_of_name : moves extensionState Grammar.tokenBytes Pending.name.state [.start_field] = true
  more_of_name : moves Pending.name.state Grammar.tokenBytes Pending.name.state [] = true
  equal_sign : moves Pending.name.state [(0x3D, 0x3D)] equalState [.write_field, .start_value] = true
  first_of_value : moves equalState Grammar.tokenBytes Pending.value.state [.start_value] = true
  more_of_value : moves Pending.value.state Grammar.tokenBytes Pending.value.state [] = true
  carriage_return (pending : Pending) :
    moves pending.state [(0x0D, 0x0D)] returnState pending.actions = true
  line_feed : moves returnState [(0x0A, 0x0A)] doneState [.done] = true

theorem lineMoves : LineMoves where
  first_digit := by decide +kernel
  more_digits := by decide +kernel
  semicolon pending := by cases pending <;> decide +kernel
  first_of_name := by decide +kernel
  more_of_name := by decide +kernel
  equal_sign := by decide +kernel
  first_of_value := by decide +kernel
  more_of_value := by decide +kernel
  carriage_return pending := by cases pending <;> decide +kernel
  line_feed := by decide +kernel

example : walk [Grammar.main] (ascii "1f;name") = Pending.name.state := by
  decide +kernel

/-! ## What the parser makes of the line -/

open HttpResponseParser

/-- The parser knows the size of the chunk, and some of the extensions. -/
structure Knows (size : Nat) (response : HttpResponse) (error : Int) (place : Nat)
    (parser : HttpResponseParser) : Prop where
  response : parser.m_data = response
  error : parser.m_error = error
  content_len : parser.mParser.content_len = size
  chunks_done : parser.mParser.chunks_done = decide (size = 0)
  inside : Inside place parser.mParser

section Line

variable {buffer rest : Bytes} {place size : Nat} {parser next : HttpResponseParser}
  {response : HttpResponse} {error : Int}

theorem digitValue_of_xdigit {byte : UInt8}
    (hex : inRanges Http11.Grammar.xdigit byte = true) : (digitValue 16 byte).isSome = true := by
  have all : ∀ code < 256, inRanges Http11.Grammar.xdigit code.toUInt8 = true →
      (digitValue 16 code.toUInt8).isSome = true := by
    decide +kernel
  simpa using all byte.toNat (UInt8.toNat_lt byte) (by simpa using hex)

/-- The parser behind that name, at `stop`. -/
def named (parser : HttpResponseParser) (start stop : Nat) : HttpResponseParser :=
  parser.registers ({ · with field_start := start, field_len := stop - start, mark := stop })

theorem Knows.named (knows : Knows size response error place parser) {start stop : Nat}
    (behind : place ≤ start) (ordered : start ≤ stop) :
    Knows size response error stop (named parser start stop) := by
  have inside := knows.inside
  refine ⟨knows.response, knows.error, knows.content_len, knows.chunks_done, ?_⟩
  refine ⟨inside.nread, Nat.le_refl _, ordered, ?_, ?_⟩
  · show 0 ≤ (stop : Int) - start
    omega
  · show (stop : Int) - start ≤ stop
    omega

/-- A header of the response. -/
theorem Knows.setHeader (knows : Knows size response error place parser) (name value : Bytes) :
    Knows size (response.setHeader name value) error place
      { parser with m_data := parser.m_data.setHeader name value } :=
  ⟨congrArg (·.setHeader name value) knows.response, knows.error, knows.content_len,
    knows.chunks_done, knows.inside⟩

end Line

end ChunkLine

end Exhy.Http
