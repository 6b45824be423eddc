import Exhy.Http.HttpResponseParser
import Exhy.Http.Stream

/-!
# Receiving a response

`HttpConnection::recvResponse` of `http_connection.cpp`.
-/

namespace Exhy.Http.HttpConnection

open Library

/-- The loop that reads until the parser is finished. -/
def recvHeader (buff_size : Nat) :
    (fuel : Nat) → HttpResponseParser → (data : Bytes) → Socket →
      Except Stop (HttpResponseParser × Bytes × Socket)
  | 0, _, _, _ => .error .stuck
  | fuel + 1, parser, data, socket =>
      let (bytes, socket) := read (buff_size - data.length) socket
      if bytes = [] then .error .closed
      else
        match parser.execute (data ++ bytes) false with
        | none => .error .threw
        | some (parser, data) =>
            if parser.hasError then .error .closed
            else if data.length = toInt32 buff_size then .error .closed
            else if parser.isFinished ≠ 0 then .ok (parser, data, socket)
            else recvHeader buff_size fuel parser data socket

/-- The inner loop, which parses the line of a chunk. -/
def recvChunkLine (buff_size : Nat) :
    (fuel : Nat) → (first : Bool) → HttpResponseParser → (data : Bytes) → Socket →
      Except Stop (HttpResponseParser × Bytes × Socket)
  | 0, _, _, _, _ => .error .stuck
  | fuel + 1, first, parser, data, socket =>
      let reads := !first || data.length = 0
      let (bytes, socket) := if reads then read (buff_size - data.length) socket else ([], socket)
      if reads && bytes = [] then .error .closed
      else
        match parser.execute (data ++ bytes) true with
        | none => .error .threw
        | some (parser, data) =>
            if parser.hasError then .error .closed
            else if data.length = toInt32 buff_size then .error .closed
            else if parser.isFinished ≠ 0 then .ok (parser, data, socket)
            else recvChunkLine buff_size fuel false parser data socket

/-- The loop that reads the `left` bytes of a chunk and its line end. -/
def recvLeft (buff_size : Nat) : (fuel left : Nat) → Socket → Except Stop (Bytes × Socket)
  | _, 0, socket => .ok ([], socket)
  | 0, _ + 1, _ => .error .stuck
  | fuel + 1, left + 1, socket =>
      let (bytes, socket) := read (min (left + 1) buff_size) socket
      if bytes = [] then .error .closed
      else
        match recvLeft buff_size fuel (left + 1 - bytes.length) socket with
        | .error stop => .error stop
        | .ok (rest, socket) => .ok (bytes ++ rest, socket)

/-- What a chunk of `content_len` bytes adds to the body, of which `data` has been read
already with what comes behind it.  A length that no string can have is an exception, and so
is one behind the buffer, which an overflow of the sum lets through. -/
def recvChunkBody (buff_size : Nat) (content_len : Int) (body data : Bytes) (socket : Socket) :
    Except Stop (Bytes × Bytes × Socket) :=
  if toInt32 (content_len + 2) ≤ data.length then
    if content_len < 0 || data.length < content_len then .error .threw
    else
      .ok (body ++ data.take content_len.toNat, data.drop (content_len + 2).toNat, socket)
  else
    let left := toInt32 (content_len - data.length + 2)
    match recvLeft buff_size left.toNat left.toNat socket with
    | .error stop => .error stop
    | .ok (rest, socket) =>
        let body := body ++ data ++ rest
        if body.length < 2 then .error .threw
        else .ok (body.take (body.length - 2), [], socket)

/-- The outer loop, over the chunks. -/
def recvChunks (buff_size : Nat) :
    (fuel : Nat) → HttpResponseParser → (body data : Bytes) → Socket →
      Except Stop (HttpResponseParser × Bytes × Socket)
  | 0, _, _, _, _ => .error .stuck
  | fuel + 1, parser, body, data, socket =>
      match recvChunkLine buff_size (socket.flatten.length + 2) true parser data socket with
      | .error stop => .error stop
      | .ok (parser, data, socket) =>
          match recvChunkBody buff_size parser.mParser.content_len body data socket with
          | .error stop => .error stop
          | .ok (body, data, socket) =>
              if parser.mParser.chunks_done then .ok (parser, body, socket)
              else recvChunks buff_size fuel parser body data socket

/-- The body of `length` bytes, of which `data` has been read already.  `readFixSize` returns
their number as an `int`, which has to be positive. -/
def recvBody (length : Int) (data : Bytes) (socket : Socket) : Except Stop (Bytes × Socket) :=
  if 0 < length then
    let body := if length ≥ data.length then data else data.take length.toNat
    let left := length - data.length
    if 0 < left then
      match readFixSize left.toNat left.toNat socket with
      | .error stop => .error stop
      | .ok (rest, socket) =>
          if toInt32 left ≤ 0 then .error .closed else .ok (body ++ rest, socket)
    else .ok (body, socket)
  else .ok ([], socket)

/-- The streams of zlib that undo a content encoding. -/
structure ZlibStream where
  gzip : Bytes → Bytes
  deflate : Bytes → Bytes

/-- The response with its body, which has its content encoding undone. -/
def setBody (zlib : ZlibStream) (response : HttpResponse) (body : Bytes) : HttpResponse :=
  if body = [] then response
  else
    let content_encoding := folded (response.getHeader (ascii "content-encoding") [])
    { response with
      m_body :=
        if content_encoding = folded (ascii "gzip") then zlib.gzip body
        else if content_encoding = folded (ascii "deflate") then zlib.deflate body
        else body }

/-- The conversion of a `uint64_t` to `int64_t`. -/
def toInt64 (value : UInt64) : Int := value.toInt64.toInt

/-- `recvResponse()`, with what it leaves in the socket. -/
def recvResponse (zlib : ZlibStream) (buff_size : Nat) (socket : Socket) :
    Except Stop (HttpResponse × Socket) :=
  match recvHeader buff_size (socket.flatten.length + 1) {} [] socket with
  | .error stop => .error stop
  | .ok (parser, data, socket) =>
      if parser.mParser.chunked then
        match recvChunks buff_size (data.length + socket.flatten.length + 1) parser [] data socket with
        | .error stop => .error stop
        | .ok (parser, body, socket) => .ok (setBody zlib parser.m_data body, socket)
      else
        match recvBody (toInt64 parser.getContentLength) data socket with
        | .error stop => .error stop
        | .ok (body, socket) => .ok (setBody zlib parser.m_data body, socket)

end Exhy.Http.HttpConnection
