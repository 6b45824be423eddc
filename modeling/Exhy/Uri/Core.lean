import Exhy.Library.CString
import Exhy.Library.Executor
import Exhy.Library.Outline
import Exhy.Uri.Grammar

/-!
# URIs

`Uri` of `exhy_uri.h` with the actions of `exhy_uri.rl`.  A pointer into the text is a
position, and the lines that go to the standard output are left out.
-/

namespace Exhy

open Library

structure Uri where
  m_scheme : Bytes := []
  m_userinfo : Bytes := []
  m_host : Bytes := []
  m_path : Bytes := []
  m_query : Bytes := []
  m_fragment : Bytes := []
  m_port : Int := 0
  deriving DecidableEq, Repr

namespace Uri

/-- The variables of `Create` that the actions use. -/
structure Parsing where
  uri : Uri := {}
  mark : Option Nat := none
  deriving DecidableEq, Repr

/-- `atoi`, which converts the `long` of `strtol`. -/
def atoi (text : Bytes) : Int := toInt32 (strtol 10 text)

namespace Parsing

/-- `std::string(mark, fpc - mark)`, which throws where the mark is null. -/
def marked (state : Parsing) (uristr : Bytes) (fpc : Nat) : Option Bytes :=
  state.mark.map fun mark => (uristr.drop mark).take (fpc - mark)

/-- An action at a position; none where it throws. -/
def perform (uristr : Bytes) (fpc : Nat) (action : Action) (state : Parsing) : Option Parsing :=
  match action with
  | .marku | .markh => some { state with mark := some fpc }
  | .save_scheme => (state.marked uristr fpc).map fun text =>
      { uri := { state.uri with m_scheme := text } }
  | .save_port =>
      if state.mark ≠ some fpc then
        state.mark.map fun mark =>
          { uri := { state.uri with m_port := atoi (uristr.drop mark) } }
      else some { state with mark := none }
  | .save_userinfo =>
      match state.marked uristr fpc with
      | some text => some { uri := { state.uri with m_userinfo := text } }
      | none => some state
  | .save_host =>
      match state.marked uristr fpc with
      | some text => some { state with uri := { state.uri with m_host := text } }
      | none => some state
  | .save_path => (state.marked uristr fpc).map fun text =>
      { uri := { state.uri with m_path := text } }
  | .save_query => (state.marked uristr fpc).map fun text =>
      { uri := { state.uri with m_query := text } }
  | .save_fragment => (state.marked uristr fpc).map fun text =>
      { uri := { state.uri with m_fragment := text } }

end Parsing

/-- The run over the text and the actions at its end. -/
def exec (uristr : Bytes) : Option (Parsing × List (Machine Action)) :=
  match Machine.exec (Parsing.perform uristr) (fun _ => false) uristr 0 [Grammar.main] {} with
  | none => none
  | some (state, cs, p) =>
      (Machine.perform (Parsing.perform uristr) (fun _ => false) p (Machine.atEnd cs) state).map
        fun done => (done.1, cs)

/-- `Create(uristr)`: none when it throws, a null pointer when the text is refused. -/
def Create (uristr : Bytes) : Option (Option Uri) :=
  (exec uristr).map fun (state, cs) => if Machine.final cs then some state.uri else none

def isDefaultPort (uri : Uri) : Bool :=
  if uri.m_port = 0 then true
  else if uri.m_scheme = ascii "http" || uri.m_scheme = ascii "ws" then uri.m_port = 80
  else if uri.m_scheme = ascii "https" || uri.m_scheme = ascii "wss" then uri.m_port = 443
  else false

def getScheme (uri : Uri) : Bytes := uri.m_scheme

def getUserinfo (uri : Uri) : Bytes := uri.m_userinfo

def getHost (uri : Uri) : Bytes := uri.m_host

def getPath (uri : Uri) : Bytes := if uri.m_path = [] then ascii "/" else uri.m_path

def getQuery (uri : Uri) : Bytes := uri.m_query

def getFragment (uri : Uri) : Bytes := uri.m_fragment

def getPort (uri : Uri) : Int :=
  if uri.m_port ≠ 0 then uri.m_port
  else if uri.m_scheme = ascii "http" || uri.m_scheme = ascii "ws" then 80
  else if uri.m_scheme = ascii "https" || uri.m_scheme = ascii "wss" then 443
  else uri.m_port

/-- `std::to_string` of an integer. -/
def to_string (number : Int) : Bytes :=
  if number < 0 then ascii "-" ++ decimal number.natAbs else decimal number.natAbs

/-- `toString()`, which `dump` writes. -/
def toString (uri : Uri) : Bytes :=
  uri.m_scheme ++ ascii "://" ++ uri.m_userinfo ++ (if uri.m_userinfo = [] then [] else ascii "@") ++
    uri.m_host ++ (if uri.isDefaultPort then [] else ascii ":" ++ to_string uri.m_port) ++
    uri.getPath ++ (if uri.m_query = [] then [] else ascii "?") ++ uri.m_query ++
    (if uri.m_fragment = [] then [] else ascii "#") ++ uri.m_fragment

end Uri

end Exhy
