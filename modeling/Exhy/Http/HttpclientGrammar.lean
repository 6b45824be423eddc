import Exhy.Http.Http11Grammar

/-!
# The grammar of responses

The machine of `httpclient_parser.rl`, rule by rule.  The line of a chunk is a second start.
-/

namespace Exhy.Http.Httpclient

open Library

inductive Action where
  | mark
  | start_field
  | write_field
  | start_value
  | write_content_len
  | write_connection_close
  | write_value
  | reason_phrase
  | status_code
  | http_version
  | chunk_size
  | trans_chunked
  | done
  deriving DecidableEq, Repr

namespace Grammar

open Machine Http11.Grammar

/-- `ascii -- (CTL | tspecials)`. -/
def tokenBytes : List (UInt8 × UInt8) :=
  [(0x21, 0x21), (0x23, 0x27), (0x2A, 0x2B), (0x2D, 0x2E), (0x30, 0x39), (0x41, 0x5A),
    (0x5E, 0x7A), (0x7C, 0x7C), (0x7E, 0x7E)]

/-- `any -- CRLF`, a text without a line feed. -/
def notLineFeed : List (UInt8 × UInt8) := [(0x00, 0x09), (0x0B, 0xFF)]

def CRLF : Machine Action := alt (literal "\r\n") (literal "\n")

def token : Machine Action := plus (bytes tokenBytes)

def Reason_Phrase : Machine Action := ((plus (bytes notLineFeed)).enter .mark).leave .reason_phrase

def Status_Code : Machine Action := ((plus (bytes digit)).enter .mark).leave .status_code

def http_number : Machine Action := sequence [plus (bytes digit), literal ".", plus (bytes digit)]

def HTTP_Version : Machine Action :=
  ((seq (literal "HTTP/") http_number).enter .mark).leave .http_version

def Status_Line : Machine Action :=
  guard (sequence [HTTP_Version, literal " ", Status_Code, literal " ", Reason_Phrase]) CRLF

def field_name : Machine Action := (token.enter .start_field).leave .write_field

def field_value : Machine Action := ((star (bytes any)).enter .start_value).leave .write_value

def fields : Machine Action :=
  guard (sequence [field_name, literal ":", star (bytes space), field_value]) CRLF

def content_length : Machine Action :=
  seq (sequence [((literalAnyCase "Content-Length").enter .start_field).leave .write_field,
    literal ":", star (bytes space),
    (((plus (bytes digit)).enter .start_value).leave .write_content_len).leave .write_value]) CRLF

def conn_close : Machine Action :=
  seq (sequence [literalAnyCase "Connection", literal ":", star (bytes space),
    literalAnyCase "close"]) (CRLF.leave .write_connection_close)

def transfer_encoding_chunked : Machine Action :=
  seq (sequence [((literalAnyCase "Transfer-Encoding").enter .start_field).leave .write_field,
    literal ":", star (bytes space),
    ((literalAnyCase "chunked").enter .start_value).leave .write_value])
    (CRLF.finish .trans_chunked)

def message_header : Machine Action :=
  choice [transfer_encoding_chunked, conn_close, content_length, fields]

def Response : Machine Action := sequence [Status_Line, star message_header, CRLF]

def chunk_ext_val : Machine Action := token

def chunk_ext_name : Machine Action := token

def chunk_extension : Machine Action :=
  star (sequence [literal ";",
    ((chunk_ext_name.enter .start_field).leave .write_field).leave .start_value,
    (opt (seq (literal "=") (chunk_ext_val.enter .start_value))).leave .write_value])

def chunk_size : Machine Action := plus (bytes xdigit)

def Chunked_Header : Machine Action :=
  guard (seq ((chunk_size.enter .mark).leave .chunk_size) chunk_extension) CRLF

def main : Machine Action := ((alt Response Chunked_Header).finish .done).number 0 |>.1

end Grammar

end Exhy.Http.Httpclient
