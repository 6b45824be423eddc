import Exhy.Library.Machine

/-!
# The grammar of URIs

The machine of `exhy_uri.rl`, rule by rule.
-/

namespace Exhy.Uri

open Library

inductive Action where
  | marku
  | markh
  | save_scheme
  | save_port
  | save_userinfo
  | save_host
  | save_path
  | save_query
  | save_fragment
  deriving DecidableEq, Repr

namespace Grammar

open Machine

/-! ## Classes of bytes -/

def alpha : List (UInt8 × UInt8) := [(0x41, 0x5A), (0x61, 0x7A)]
def digit : List (UInt8 × UInt8) := [(0x30, 0x39)]
def xdigit : List (UInt8 × UInt8) := [(0x30, 0x39), (0x41, 0x46), (0x61, 0x66)]

/-- `any -- ascii`. -/
def notAscii : List (UInt8 × UInt8) := [(0x80, 0xFF)]

def sub_delims : List (UInt8 × UInt8) := chars "!$&'()*+,;="

def unreserved : List (UInt8 × UInt8) := alpha ++ digit ++ chars "-._~"

/-! ## Authorities -/

def pct_encoded : Machine Action := sequence [literal "%", bytes xdigit, bytes xdigit]

def scheme : Machine Action := seq (bytes alpha) (star (bytes (alpha ++ digit ++ chars "+-.")))

def userinfo : Machine Action :=
  star (alt (bytes (unreserved ++ sub_delims ++ chars ":")) pct_encoded)

/-- The `2` of `2 [0-4] digit` is the byte 2. -/
def dec_octet : Machine Action :=
  choice [bytes digit, seq (bytes [(0x31, 0x39)]) (bytes digit),
    seq (literal "1") (repeated 2 (bytes digit)),
    sequence [byte 2, bytes [(0x30, 0x34)], bytes digit],
    seq (literal "25") (bytes [(0x30, 0x35)])]

def IPv4address : Machine Action :=
  sequence [dec_octet, literal ".", dec_octet, literal ".", dec_octet, literal ".", dec_octet]

/-- `xdigit{1,4}`. -/
def h16 : Machine Action := seq (bytes xdigit) (upTo 3 (bytes xdigit))

/-- `h16 ":"`. -/
def h16Colon : Machine Action := seq h16 (literal ":")

def ls32 : Machine Action := alt (sequence [h16, literal ":", h16]) IPv4address

/-- `((h16 ":"){times} h16)?`. -/
def h16Before (times : Nat) : Machine Action := opt (seq (repeated times h16Colon) h16)

def IPv6address : Machine Action :=
  choice [seq (repeated 6 h16Colon) ls32,
    sequence [literal "::", repeated 5 h16Colon, ls32],
    sequence [opt h16, literal "::", repeated 4 h16Colon, ls32],
    sequence [h16Before 1, literal "::", repeated 3 h16Colon, ls32],
    sequence [h16Before 2, literal "::", repeated 2 h16Colon, ls32],
    sequence [h16Before 3, literal "::", repeated 1 h16Colon, ls32],
    sequence [h16Before 4, literal "::", ls32],
    sequence [h16Before 5, literal "::", h16],
    sequence [h16Before 6, literal "::"]]

def IPvFuture : Machine Action :=
  sequence [literal "v", plus (bytes xdigit), literal ".",
    plus (bytes (unreserved ++ sub_delims ++ chars ":"))]

def IP_literal : Machine Action := sequence [literal "[", alt IPv6address IPvFuture, literal "]"]

def reg_name : Machine Action := star (alt (bytes (unreserved ++ sub_delims)) pct_encoded)

def host : Machine Action := choice [IP_literal, IPv4address, reg_name]

def port : Machine Action := star (bytes digit)

def authority : Machine Action :=
  (sequence [opt (seq (userinfo.leave .save_userinfo) (literal "@")),
    (host.enter .markh).leave .save_host,
    opt (seq (literal ":") ((port.enter .markh).leave .save_port))]).enter .markh

/-! ## Paths, queries and fragments -/

def pchar : Machine Action :=
  alt (bytes (notAscii ++ unreserved ++ sub_delims ++ chars ":@")) pct_encoded

def segment : Machine Action := star pchar

def segment_nz : Machine Action := plus pchar

/-- `(pchar - ":")+`. -/
def segment_nz_nc : Machine Action :=
  plus (alt (bytes (notAscii ++ unreserved ++ sub_delims ++ chars "@")) pct_encoded)

/-- `("/" segment)*`. -/
def segments : Machine Action := star (seq (literal "/") segment)

def path_abempty : Machine Action := seq (opt (seq (literal "/") segment)) segments

def path_absolute : Machine Action := seq (literal "/") (opt (seq segment_nz segments))

def path_noscheme : Machine Action := seq segment_nz_nc segments

def path_rootless : Machine Action := seq segment_nz segments

def path_empty : Machine Action := empty

/-- `(pchar | "/" | "?")*`. -/
def pchars : Machine Action := star (choice [pchar, literal "/", literal "?"])

def query : Machine Action := (pchars.enter .marku).leave .save_query

def fragment : Machine Action := (pchars.enter .marku).leave .save_fragment

/-! ## References -/

def hier_part : Machine Action :=
  alt (sequence [literal "//", authority, (path_abempty.enter .markh).leave .save_path])
    (choice [path_absolute, path_rootless, path_empty])

def relative_part : Machine Action :=
  alt (sequence [literal "//", authority, path_abempty])
    (choice [path_absolute, path_noscheme, path_empty])

/-- `( "?" query )? ( "#" fragment )?`. -/
def queryAndFragment : Machine Action :=
  seq (opt (seq (literal "?") query)) (opt (seq (literal "#") fragment))

def relative_ref : Machine Action := seq relative_part queryAndFragment

def URI : Machine Action :=
  sequence [(scheme.enter .marku).leave .save_scheme, literal ":", hier_part, queryAndFragment]

def URI_reference : Machine Action := alt URI relative_ref

def main : Machine Action := (URI_reference.number 0).1

end Grammar

end Exhy.Uri
