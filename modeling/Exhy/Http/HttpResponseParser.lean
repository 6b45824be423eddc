import Exhy.Http.HttpRequestParser
import Exhy.Http.HttpclientGrammar
import Exhy.Library.Executor

/-!
# The parser of responses

`httpclient_parser_execute` of `httpclient_parser.rl` with the callbacks of
`http_parser.cpp`.  A pointer into the buffer is the part of the buffer behind it.  The log
lines are left out, and so are the callbacks that do nothing, `off`, which is 0 at the only
call, and `status`, which is written and never read.
-/

namespace Exhy.Http

open Library

/-- As `httpclient_parser_init` makes it.  `cs` is the state of the machine, the error state
when it is empty. -/
structure HttpclientParser where
  cs : List (Machine Httpclient.Action) := [Httpclient.Grammar.main]
  body_start : Nat := 0
  content_len : Int := -1
  chunked : Bool := false
  chunks_done : Bool := false
  close : Bool := false
  nread : Nat := 0
  mark : Nat := 0
  field_start : Nat := 0
  field_len : Int := 0
  deriving DecidableEq

def httpclient_parser_has_error (parser : HttpclientParser) : Bool := parser.cs = []

/-- The state 120, behind a last line feed out of which no byte leads.  The machine may also end in
121, 122 and 123, where the line ends behind a last `Transfer-Encoding:`, `Connection:` or
`Content-Length:` may be the white space in front of a value. -/
def httpclient_parser_first_final : List (Machine Httpclient.Action) :=
  match Httpclient.Grammar.main with
  | .finishing order last _ => [.finishing order last .empty]
  | _ => []

def httpclient_parser_is_finished (parser : HttpclientParser) : Bool :=
  parser.cs = httpclient_parser_first_final

def httpclient_parser_finish (parser : HttpclientParser) : Int :=
  if httpclient_parser_has_error parser then -1
  else if httpclient_parser_is_finished parser then 1
  else 0

theorem first_final_ends : Machine.final httpclient_parser_first_final = true ∧
    ∀ byte, Machine.step httpclient_parser_first_final byte = none := by
  have isState : httpclient_parser_first_final = [.finishing 31 .done .empty] := by decide +kernel
  rw [isState]
  exact ⟨rfl, fun _ => rfl⟩

structure HttpResponseParser where
  mParser : HttpclientParser := {}
  m_data : HttpResponse := {}
  m_error : Int := 0
  deriving DecidableEq

namespace HttpResponseParser

/-! ## Callbacks -/

def setError (parser : HttpResponseParser) (value : Int) : HttpResponseParser :=
  { parser with m_error := value }

def on_response_reason (parser : HttpResponseParser) (start : Bytes) (length : Int) :
    Option HttpResponseParser :=
  (text start length).map fun reason =>
    { parser with m_data := { parser.m_data with m_reason := reason } }

/-- `atoi(at)` is a status, whatever number it is. -/
def on_response_status (parser : HttpResponseParser) (start : Bytes) : HttpResponseParser :=
  { parser with m_data := { parser.m_data with m_status := toInt32 (strtol 10 start) } }

def on_response_version (parser : HttpResponseParser) (start : Bytes) (length : Int) :
    HttpResponseParser :=
  if strncmpEq start (ascii "HTTP/1.1") length.toNat then
    { parser with m_data := { parser.m_data with m_version := 0x11 } }
  else if strncmpEq start (ascii "HTTP/1.0") length.toNat then
    { parser with m_data := { parser.m_data with m_version := 0x10 } }
  else parser.setError 1001

def on_response_http_field (parser : HttpResponseParser) (field : Bytes) (flen : Int)
    (value : Bytes) (vlen : Int) : Option HttpResponseParser :=
  if flen = 0 then some parser
  else
    match text field flen, text value vlen with
    | some key, some val => some { parser with m_data := parser.m_data.setHeader key val }
    | _, _ => none

/-! ## Actions -/

/-- The registers of the parser, changed. -/
def registers (parser : HttpResponseParser) (change : HttpclientParser → HttpclientParser) :
    HttpResponseParser :=
  { parser with mParser := change parser.mParser }

/-- What an action does at the position `fpc` of the buffer. -/
def effect (buffer : Bytes) (fpc : Nat) (action : Httpclient.Action)
    (parser : HttpResponseParser) : Option HttpResponseParser :=
  match action with
  | .mark | .start_value => some (parser.registers ({ · with mark := fpc }))
  | .start_field => some (parser.registers ({ · with field_start := fpc }))
  | .write_field =>
      some (parser.registers ({ · with field_len := fpc - parser.mParser.field_start }))
  | .write_content_len => some (parser.registers
      ({ · with content_len := toInt32 (strtol 10 (buffer.drop parser.mParser.mark)) }))
  | .write_connection_close => some (parser.registers ({ · with close := true }))
  | .write_value =>
      parser.on_response_http_field (buffer.drop parser.mParser.field_start)
        parser.mParser.field_len (buffer.drop parser.mParser.mark) (fpc - parser.mParser.mark)
  | .reason_phrase =>
      parser.on_response_reason (buffer.drop parser.mParser.mark) (fpc - parser.mParser.mark)
  | .status_code => some (parser.on_response_status (buffer.drop parser.mParser.mark))
  | .http_version => some (parser.on_response_version (buffer.drop parser.mParser.mark)
      (fpc - parser.mParser.mark))
  | .chunk_size =>
      let content_len := toInt32 (strtol 16 (buffer.drop parser.mParser.mark))
      some (parser.registers
        ({ · with chunked := true, content_len := content_len, chunks_done := content_len ≤ 0 }))
  | .trans_chunked => some (parser.registers ({ · with chunked := true }))
  | .done => some (parser.registers ({ · with body_start := fpc + 1 }))

/-- The action with `fbreak`. -/
def breaks (action : Httpclient.Action) : Bool := action = .done

/-- `httpclient_parser_execute(&mParser, buffer, len, 0)`; none when an exception leaves it or
when one of its checks fails, since `execute` takes the -1 for a number of bytes. -/
def httpclient_parser_execute (parser : HttpResponseParser) (buffer : Bytes) :
    Option (HttpResponseParser × Nat) :=
  let start := parser.registers
    ({ · with nread := 0, mark := 0, field_len := 0, field_start := 0 })
  match Machine.exec (effect buffer) breaks buffer 0 start.mParser.cs start with
  | none => none
  | some (parser, cs, p) =>
      let nread := parser.mParser.nread + p
      if parser.mParser.mark < buffer.length ∧
          (0 ≤ parser.mParser.field_len ∧ parser.mParser.field_len ≤ buffer.length) ∧
          parser.mParser.field_start < buffer.length then
        some (parser.registers ({ · with cs := cs, nread := nread }), nread)
      else none

def getContentLength (parser : HttpResponseParser) : UInt64 :=
  parser.m_data.getHeaderAsUInt64 (ascii "content-length") 0

/-- `execute(data, len, chunck)`, with the bytes that it leaves in front of the buffer. -/
def execute (parser : HttpResponseParser) (data : Bytes) (chunck : Bool) :
    Option (HttpResponseParser × Bytes) :=
  let parser := if chunck then { parser with mParser := {} } else parser
  match parser.httpclient_parser_execute data with
  | none => none
  | some (parser, offset) => some (parser, data.drop offset)

def isFinished (parser : HttpResponseParser) : Int := httpclient_parser_finish parser.mParser

def hasError (parser : HttpResponseParser) : Bool :=
  parser.m_error ≠ 0 || httpclient_parser_has_error parser.mParser

end HttpResponseParser

end Exhy.Http
