import Exhy.Http.Http
import Exhy.Http.Http11Grammar
import Exhy.Http.Stream

/-!
# The parser of requests

`http_parser_execute` of `http11_parser.rl` with the callbacks of `http_parser.cpp`.  A
pointer into the buffer is the part of the buffer behind it.  The log lines are left out,
and so is `off`, which is 0 at the only call.
-/

namespace Exhy.Http

open Library

/-- `cs` is the state of the machine, the error state when it is empty.  Lengths are
differences of positions: a negative one is a `size_t` that no string can have. -/
structure HttpParser where
  cs : List (Machine Http11.Action)
  body_start : Nat
  content_len : Int
  nread : Nat
  mark : Nat
  field_start : Nat
  field_len : Int
  query_start : Nat
  xml_sent : Bool
  json_sent : Bool
  uri_relaxed : Bool
  deriving DecidableEq

/-- `query_start` and `uri_relaxed` keep what the memory of the parser holds. -/
def http_parser_init (parser : HttpParser) : HttpParser :=
  { parser with
    cs := [Http11.Grammar.main parser.uri_relaxed]
    body_start := 0
    content_len := 0
    mark := 0
    nread := 0
    field_len := 0
    field_start := 0
    xml_sent := false
    json_sent := false }

def http_parser_has_error (parser : HttpParser) : Bool := parser.cs = []

def http_parser_is_finished (parser : HttpParser) : Bool := Machine.final parser.cs

def http_parser_finish (parser : HttpParser) : Int :=
  if http_parser_has_error parser then -1
  else if http_parser_is_finished parser then 1
  else 0

/-! ## Callbacks -/

/-- The members of `HttpRequestParser` that the callbacks fill in. -/
structure Parsed where
  m_data : HttpRequest := {}
  m_error : Int := 0
  deriving DecidableEq

/-- `std::string(at, length)`; a length that no string can have is an exception. -/
def text (start : Bytes) (length : Int) : Option Bytes :=
  if length < 0 then none else some (start.take length.toNat)

namespace Parsed

def setError (parser : Parsed) (value : Int) : Parsed := { parser with m_error := value }

def on_request_method (parser : Parsed) (start : Bytes) : Parsed :=
  match CharsToHttpMethod start with
  | .INVALID_METHOD => parser.setError 1000
  | method => { parser with m_data := { parser.m_data with m_method := method } }

def on_request_fragment (parser : Parsed) (start : Bytes) (length : Int) : Option Parsed :=
  (text start length).map fun fragment =>
    { parser with m_data := { parser.m_data with m_fragment := fragment } }

def on_request_path (parser : Parsed) (start : Bytes) (length : Int) : Option Parsed :=
  (text start length).map fun path =>
    { parser with m_data := { parser.m_data with m_path := path } }

def on_request_query (parser : Parsed) (start : Bytes) (length : Int) : Option Parsed :=
  (text start length).map fun query =>
    { parser with m_data := { parser.m_data with m_query := query } }

def on_request_version (parser : Parsed) (start : Bytes) (length : Int) : Parsed :=
  if strncmpEq start (ascii "HTTP/1.1") length.toNat then
    { parser with m_data := { parser.m_data with m_version := 0x11 } }
  else if strncmpEq start (ascii "HTTP/1.0") length.toNat then
    { parser with m_data := { parser.m_data with m_version := 0x10 } }
  else parser.setError 1001

def on_request_http_field (parser : Parsed) (field : Bytes) (flen : Int) (value : Bytes)
    (vlen : Int) : Option Parsed :=
  if flen = 0 then some parser
  else
    match text field flen, text value vlen with
    | some key, some val => some { parser with m_data := parser.m_data.setHeader key val }
    | _, _ => none

end Parsed

/-! ## Actions -/

namespace HttpParser

/-- The actions that move the registers, at the position `fpc` of the buffer. -/
def register (parser : HttpParser) (fpc : Nat) : Http11.Action → HttpParser
  | .mark | .start_value => { parser with mark := fpc }
  | .start_field => { parser with field_start := fpc }
  | .write_field => { parser with field_len := fpc - parser.field_start }
  | .start_query => { parser with query_start := fpc }
  | .xml => { parser with xml_sent := true }
  | .json => { parser with json_sent := true }
  | .done =>
      if parser.xml_sent || parser.json_sent then
        { parser with
          body_start := parser.mark
          content_len := toInt32 (fpc - parser.mark + 1) }
      else { parser with body_start := fpc + 1 }
  | .write_value | .request_method | .request_uri | .fragment | .query_string | .http_version
  | .request_path => parser

/-- The actions that call back.  The callbacks of `request_uri` and `header_done` do nothing. -/
def callback (parser : HttpParser) (buffer : Bytes) (fpc : Nat) (data : Parsed) :
    Http11.Action → Option Parsed
  | .write_value => data.on_request_http_field (buffer.drop parser.field_start) parser.field_len
      (buffer.drop parser.mark) (fpc - parser.mark)
  | .request_method => some (data.on_request_method (buffer.drop parser.mark))
  | .fragment => data.on_request_fragment (buffer.drop parser.mark) (fpc - parser.mark)
  | .query_string =>
      data.on_request_query (buffer.drop parser.query_start) (fpc - parser.query_start)
  | .http_version =>
      some (data.on_request_version (buffer.drop parser.mark) (fpc - parser.mark))
  | .request_path => data.on_request_path (buffer.drop parser.mark) (fpc - parser.mark)
  | .mark | .start_field | .write_field | .start_value | .start_query | .request_uri | .done
  | .xml | .json => some data

end HttpParser

structure HttpRequestParser extends Parsed where
  mParser : HttpParser
  deriving DecidableEq

namespace HttpRequestParser

/-- The actions on one byte, up to `fbreak`; says whether it broke. -/
def perform (buffer : Bytes) (fpc : Nat) :
    List Http11.Action → HttpRequestParser → Option (HttpRequestParser × Bool)
  | [], parser => some (parser, false)
  | action :: later, parser =>
      match parser.mParser.callback buffer fpc parser.toParsed action with
      | none => none
      | some data =>
          let parser : HttpRequestParser := ⟨data, parser.mParser.register fpc action⟩
          if action = .done then some (parser, true) else perform buffer fpc later parser

/-- The run over the bytes from `p` on, with the state and the position where it stops. -/
def exec (buffer : Bytes) : (rest : Bytes) → (p : Nat) → List (Machine Http11.Action) →
    HttpRequestParser → Option (HttpRequestParser × List (Machine Http11.Action) × Nat)
  | [], p, cs, parser => some (parser, cs, p)
  | byte :: rest, p, cs, parser =>
      match Machine.step cs byte with
      | none => some (parser, [], p)
      | some (next, actions) =>
          match perform buffer p actions parser with
          | none => none
          | some (parser, true) => some (parser, next, p + 1)
          | some (parser, false) => exec buffer rest (p + 1) next parser

end HttpRequestParser

/-- `http_parser_execute(&mParser, buffer, len, 0)`; none when an exception leaves it. -/
def http_parser_execute (parser : HttpRequestParser) (buffer : Bytes) :
    Option (HttpRequestParser × Nat) :=
  if buffer = [] then some (parser, 0)
  else
    let start :=
      { parser.mParser with nread := 0, mark := 0, field_len := 0, field_start := 0 }
    match HttpRequestParser.exec buffer buffer 0 start.cs { parser with mParser := start } with
    | none => none
    | some (parser, cs, p) =>
        let cs := if http_parser_has_error parser.mParser then parser.mParser.cs else cs
        let nread := parser.mParser.nread + p
        some ({ parser with mParser := { parser.mParser with cs := cs, nread := nread } }, nread)

namespace HttpRequestParser

/-- The constructor, on memory that holds `memory`. -/
def init (memory : HttpParser) : HttpRequestParser := { mParser := http_parser_init memory }

def getContentLength (parser : HttpRequestParser) : UInt64 :=
  parser.m_data.getHeaderAsUInt64 (ascii "content-length") 0

/-- `execute(data, len)`, with the bytes that it leaves in front of the buffer. -/
def execute (parser : HttpRequestParser) (data : Bytes) : Option (HttpRequestParser × Bytes) :=
  match http_parser_execute parser data with
  | none => none
  | some (parser, offset) => some (parser, data.drop offset)

def isFinished (parser : HttpRequestParser) : Int := http_parser_finish parser.mParser

def hasError (parser : HttpRequestParser) : Bool :=
  parser.m_error ≠ 0 || http_parser_has_error parser.mParser

end HttpRequestParser

end Exhy.Http
