import Exhy.Library.Machine

/-!
# The grammar of requests

The machine of `http11_parser.rl`, rule by rule.  `uri_relaxed` is a field of the parser that
its initialisation leaves alone, so it is a parameter here.
-/

namespace Exhy.Http.Http11

open Library

inductive Action where
  | mark
  | start_field
  | write_field
  | start_value
  | write_value
  | request_method
  | request_uri
  | fragment
  | start_query
  | query_string
  | http_version
  | request_path
  | done
  | xml
  | json
  deriving DecidableEq, Repr

namespace Grammar

open Machine

/-! ## Classes of bytes -/

def any : List (UInt8 × UInt8) := [(0, 255)]
def upper : List (UInt8 × UInt8) := [(0x41, 0x5A)]
def digit : List (UInt8 × UInt8) := [(0x30, 0x39)]
def alpha : List (UInt8 × UInt8) := [(0x41, 0x5A), (0x61, 0x7A)]
def xdigit : List (UInt8 × UInt8) := [(0x30, 0x39), (0x41, 0x46), (0x61, 0x66)]
def space : List (UInt8 × UInt8) := [(0x09, 0x0D), (0x20, 0x20)]

/-- `any -- ascii`. -/
def notAscii : List (UInt8 × UInt8) := [(0x80, 0xFF)]

/-- `any -- HTTP_CTL`.  `HTTP_CTL = (0 - 31) | 127` is the two bytes 0 and 127, since `-` is
the difference of two machines. -/
def notHTTP_CTL : List (UInt8 × UInt8) := [(0x01, 0x7E), (0x80, 0xFF)]

/-- `ascii -- ( HTTP_CTL | HTTP_separator )`, the other control bytes among them. -/
def tokenBytes : List (UInt8 × UInt8) :=
  [(0x01, 0x08), (0x0A, 0x1F), (0x21, 0x21), (0x23, 0x27), (0x2A, 0x2B), (0x2D, 0x2E),
    (0x30, 0x39), (0x41, 0x5A), (0x5E, 0x7A), (0x7C, 0x7C), (0x7E, 0x7E)]

def unreserved : List (UInt8 × UInt8) := alpha ++ digit ++ chars "-._~"

/-- The brackets `0x7B`, `0x7D` and `0x5E`, when the condition allows them. -/
def more_delims (uri_relaxed : Bool) : List (UInt8 × UInt8) :=
  if uri_relaxed then [(0x7B, 0x7B), (0x7D, 0x7D), (0x5E, 0x5E)] else []

def sub_delims (uri_relaxed : Bool) : List (UInt8 × UInt8) :=
  chars "!$&'()*+,;=" ++ more_delims uri_relaxed

/-! ## Rules -/

def CRLF : Machine Action := alt (literal "\r\n") (literal "\n")

def pct_encoded : Machine Action := sequence [literal "%", bytes xdigit, bytes xdigit]

section Uri

variable (uri_relaxed : Bool)

def pchar : Machine Action :=
  alt (bytes (notAscii ++ unreserved ++ sub_delims uri_relaxed ++ chars ":@")) pct_encoded

def fragment : Machine Action :=
  ((star (choice [pchar uri_relaxed, literal "/", literal "?"])).enter .mark).leave .fragment

def query : Machine Action :=
  (star (choice [pchar uri_relaxed, literal "/", literal "?"])).leave .query_string

def segment_nz_nc : Machine Action :=
  plus (alt (bytes (unreserved ++ sub_delims uri_relaxed ++ chars "@")) pct_encoded)

def segment_nz : Machine Action := plus (pchar uri_relaxed)

def segment : Machine Action := star (pchar uri_relaxed)

def path_empty : Machine Action := empty

def path_rootless : Machine Action :=
  seq (segment_nz uri_relaxed) (star (seq (literal "/") (segment uri_relaxed)))

def path_noscheme : Machine Action :=
  seq (segment_nz_nc uri_relaxed) (star (seq (literal "/") (segment uri_relaxed)))

def path_absolute : Machine Action :=
  seq (literal "/")
    (opt (seq (segment_nz uri_relaxed) (star (seq (literal "/") (segment uri_relaxed)))))

def path_abempty : Machine Action := star (seq (literal "/") (segment uri_relaxed))

def reg_name : Machine Action :=
  star (alt (bytes (unreserved ++ sub_delims uri_relaxed)) pct_encoded)

/-- `"1"-"9"`, `"0"-"4"` and `"0"-"5"` are differences too. -/
def dec_octet : Machine Action :=
  choice [bytes digit, seq (literal "1") (bytes digit),
    seq (literal "1") (repeated 2 (bytes digit)),
    sequence [literal "2", literal "0", bytes digit],
    seq (literal "25") (literal "0")]

def IPv4address : Machine Action :=
  sequence [dec_octet, literal ".", dec_octet, literal ".", dec_octet, literal ".", dec_octet]

/-- `xdigit{1,4}`. -/
def h16 : Machine Action := seq (bytes xdigit) (upTo 3 (bytes xdigit))

/-- `h16 ":"`. -/
def h16Colon : Machine Action := seq h16 (literal ":")

def ls32 : Machine Action := alt (sequence [h16, literal ":", h16]) IPv4address

/-- `( ( h16 ":" ){least,} h16 )?`. -/
def h16Before (least : Nat) : Machine Action :=
  opt (sequence [repeated least h16Colon, star h16Colon, h16])

/-- The `6` of `6( h16 ":" )` is the byte 6, and so on. -/
def IPv6address : Machine Action :=
  choice [sequence [byte 6, h16Colon, ls32],
    sequence [literal "::", byte 5, h16Colon, ls32],
    sequence [opt h16, literal "::", byte 4, h16Colon, ls32],
    sequence [h16Before 1, literal "::", byte 3, h16Colon, ls32],
    sequence [h16Before 2, literal "::", byte 2, h16Colon, ls32],
    sequence [h16Before 3, literal "::", h16Colon, ls32],
    sequence [h16Before 4, literal "::", ls32],
    sequence [h16Before 5, literal "::", h16],
    sequence [h16Before 6, literal "::"]]

def IPvFuture : Machine Action :=
  sequence [literal "v", plus (bytes xdigit), literal ".",
    plus (bytes (unreserved ++ sub_delims uri_relaxed ++ chars ":"))]

def IP_literal : Machine Action :=
  sequence [literal "[", alt IPv6address (IPvFuture uri_relaxed), literal "]"]

def port : Machine Action := star (bytes digit)

def host : Machine Action :=
  choice [IP_literal uri_relaxed, IPv4address, reg_name uri_relaxed]

def userinfo : Machine Action :=
  star (alt (bytes (unreserved ++ sub_delims uri_relaxed ++ chars ":")) pct_encoded)

def authority : Machine Action :=
  sequence [opt (seq (userinfo uri_relaxed) (literal "@")), host uri_relaxed,
    opt (seq (literal ":") port)]

def scheme : Machine Action := seq (bytes alpha) (star (bytes (alpha ++ digit ++ chars "+-.")))

def relative_part : Machine Action :=
  choice [sequence [literal "//", authority uri_relaxed, path_abempty uri_relaxed],
    path_absolute uri_relaxed, path_noscheme uri_relaxed, path_empty]

def hier_part : Machine Action :=
  choice [sequence [literal "//", authority uri_relaxed, path_abempty uri_relaxed],
    path_absolute uri_relaxed, path_rootless uri_relaxed, path_empty]

/-- A part with its path and its query, as `relative_ref` and `URI` have it. -/
def withQuery (part : Machine Action) : Machine Action :=
  ((seq (part.leave .request_path)
    (opt (seq ((literal "?").leave .start_query) (query uri_relaxed)))).enter .mark).leave
      .request_uri

def relative_ref : Machine Action :=
  seq (withQuery uri_relaxed (relative_part uri_relaxed))
    (opt (seq (literal "#") (fragment uri_relaxed)))

def URI : Machine Action :=
  sequence [scheme, literal ":", withQuery uri_relaxed (hier_part uri_relaxed),
    opt (seq (literal "#") (fragment uri_relaxed))]

def URI_reference : Machine Action := alt (URI uri_relaxed) (relative_ref uri_relaxed)

end Uri

/-- `( upper | digit ){1,20}`. -/
def Method : Machine Action :=
  ((seq (bytes (upper ++ digit)) (upTo 19 (bytes (upper ++ digit)))).enter .mark).leave
    .request_method

def http_number : Machine Action := seq (literal "1.") (alt (literal "0") (literal "1"))

def HTTP_Version : Machine Action :=
  ((seq (literal "HTTP/") http_number).enter .mark).leave .http_version

def Request_Line (uri_relaxed : Bool) : Machine Action :=
  sequence [Method, literal " ", URI_reference uri_relaxed, literal " ", HTTP_Version, CRLF]

def lws : Machine Action := seq (opt CRLF) (plus (alt (literal " ") (literal "\t")))

def content : Machine Action := alt (bytes notHTTP_CTL) lws

def field_name : Machine Action :=
  ((plus (bytes tokenBytes)).enter .start_field).leave .write_field

def field_value : Machine Action := ((star content).enter .start_value).leave .write_value

def message_header : Machine Action :=
  guard (sequence [field_name, literal ":", star lws, field_value]) CRLF

def Request (uri_relaxed : Bool) : Machine Action :=
  sequence [Request_Line uri_relaxed, star message_header, CRLF]

def SocketJSONStart (uri_relaxed : Bool) : Machine Action :=
  seq (literal "@") (relative_part uri_relaxed)

/-- The last operand is one byte, so that `:>>` is the same as `:>`; the brackets are `0x7B`
and `0x7D`. -/
def SocketJSONData : Machine Action :=
  guard (sequence [byte 0x7B, star (bytes any), byte 0x7D]) (byte 0)

def SocketXMLData : Machine Action :=
  guard (sequence [((seq (literal "<")
      (plus (bytes (alpha ++ digit ++ chars "-.")))).enter .mark).leave .request_path,
    bytes (chars "/" ++ space ++ chars ">"), star (bytes any), literal ">"]) (byte 0)

def SocketJSON (uri_relaxed : Bool) : Machine Action :=
  sequence [((SocketJSONStart uri_relaxed).enter .mark).leave .request_path, literal " ",
    (SocketJSONData.enter .mark).finish .json]

def SocketXML : Machine Action := SocketXMLData.finish .xml

def SocketRequest (uri_relaxed : Bool) : Machine Action := alt SocketXML (SocketJSON uri_relaxed)

def main (uri_relaxed : Bool) : Machine Action :=
  ((alt (Request uri_relaxed) (SocketRequest uri_relaxed)).finish .done).number 0 |>.1

end Grammar

end Exhy.Http.Http11
