import Exhy.Http.HttpRequestParser

/-!
# Receiving a request

`HttpSession::recvRequest` of `http_session.cpp`.
-/

namespace Exhy.Http.HttpSession

open Library

/-- The loop that reads until the parser is finished.  `data` is what the last call of the
parser left in the buffer. -/
def recvHeader (buff_size : Nat) :
    (fuel : Nat) → HttpRequestParser → (data : Bytes) → Socket →
      Except Stop (HttpRequestParser × Bytes × Socket)
  | 0, _, _, _ => .error .stuck
  | fuel + 1, parser, data, socket =>
      let (bytes, socket) := read (buff_size - data.length) socket
      if bytes = [] then .error .closed
      else
        match parser.execute (data ++ bytes) with
        | none => .error .threw
        | some (parser, data) =>
            if parser.hasError then .error .closed
            else if data.length = toInt32 buff_size then .error .closed
            else if parser.isFinished ≠ 0 then .ok (parser, data, socket)
            else recvHeader buff_size fuel parser data socket

/-- The body of `length` bytes, of which `data` has been read already, and the request.  What
`data` has behind the body goes with the buffer. -/
def recvBody (length : Int) (request : HttpRequest) (data : Bytes) (socket : Socket) :
    Except Stop (HttpRequest × Socket) :=
  if 0 < length then
    let body := if length ≥ data.length then data else data.take length.toNat
    let left := length - data.length
    if 0 < left then
      match readFixSize left.toNat left.toNat socket with
      | .error stop => .error stop
      | .ok (rest, socket) => .ok ({ request with m_body := body ++ rest }.init, socket)
    else .ok ({ request with m_body := body }.init, socket)
  else .ok (request.init, socket)

/-- `recvRequest()`, with what it leaves in the socket.  `memory` is what the memory of the
parser holds before. -/
def recvRequest (memory : HttpParser) (buff_size : Nat) (socket : Socket) :
    Except Stop (HttpRequest × Socket) :=
  match recvHeader buff_size (socket.flatten.length + 1) (.init memory) [] socket with
  | .error stop => .error stop
  | .ok (parser, data, socket) =>
      recvBody (toInt32 parser.getContentLength.toNat) parser.m_data data socket

end Exhy.Http.HttpSession
