import Exhy.Http.Http

/-!
# Writing requests and responses

The texts of methods and statuses, and `dump` of `http.cpp`.
-/

namespace Exhy.Http

open Library

/-- The statuses with their texts, in the order of the macro. -/
def HTTP_STATUS_MAP : List (Int × Bytes) :=
  [(100, ascii "Continue"), (101, ascii "Switching Protocols"), (102, ascii "Processing"),
    (200, ascii "OK"), (201, ascii "Created"), (202, ascii "Accepted"),
    (203, ascii "Non-Authoritative Information"), (204, ascii "No Content"),
    (205, ascii "Reset Content"), (206, ascii "Partial Content"), (207, ascii "Multi-Status"),
    (208, ascii "Already Reported"), (226, ascii "IM Used"), (300, ascii "Multiple Choices"),
    (301, ascii "Moved Permanently"), (302, ascii "Found"), (303, ascii "See Other"),
    (304, ascii "Not Modified"), (305, ascii "Use Proxy"), (307, ascii "Temporary Redirect"),
    (308, ascii "Permanent Redirect"), (400, ascii "Bad Request"), (401, ascii "Unauthorized"),
    (402, ascii "Payment Required"), (403, ascii "Forbidden"), (404, ascii "Not Found"),
    (405, ascii "Method Not Allowed"), (406, ascii "Not Acceptable"),
    (407, ascii "Proxy Authentication Required"), (408, ascii "Request Timeout"),
    (409, ascii "Conflict"), (410, ascii "Gone"), (411, ascii "Length Required"),
    (412, ascii "Precondition Failed"), (413, ascii "Payload Too Large"),
    (414, ascii "URI Too Long"), (415, ascii "Unsupported Media Type"),
    (416, ascii "Range Not Satisfiable"), (417, ascii "Expectation Failed"),
    (421, ascii "Misdirected Request"), (422, ascii "Unprocessable Entity"), (423, ascii "Locked"),
    (424, ascii "Failed Dependency"), (426, ascii "Upgrade Required"),
    (428, ascii "Precondition Required"), (429, ascii "Too Many Requests"),
    (431, ascii "Request Header Fields Too Large"), (451, ascii "Unavailable For Legal Reasons"),
    (500, ascii "Internal Server Error"), (501, ascii "Not Implemented"),
    (502, ascii "Bad Gateway"), (503, ascii "Service Unavailable"), (504, ascii "Gateway Timeout"),
    (505, ascii "HTTP Version Not Supported"), (506, ascii "Variant Also Negotiates"),
    (507, ascii "Insufficient Storage"), (508, ascii "Loop Detected"), (510, ascii "Not Extended"),
    (511, ascii "Network Authentication Required")]

def HttpMethodToString (m : HttpMethod) : Bytes :=
  match HTTP_METHOD_MAP.find? fun entry => entry.1 = m with
  | some entry => entry.2
  | none => ascii "<unknow>"

def HttpStatusToString (s : Int) : Bytes :=
  match HTTP_STATUS_MAP.find? fun entry => entry.1 = s with
  | some entry => entry.2
  | none => ascii "<unknow>"

/-- The line of a header. -/
def headerLine (header : Bytes × Bytes) : Bytes :=
  header.1 ++ ascii ": " ++ header.2 ++ ascii "\r\n"

/-- The lines of the headers, without `connection` unless the message is a websocket's. -/
def dumpHeaders (m_websocket : Bool) (m_headers : MapType) : Bytes :=
  (m_headers.filter fun i => m_websocket || folded i.1 ≠ folded (ascii "connection")).flatMap headerLine

/-- The line with which the message says whether it closes the connection. -/
def dumpConnection (m_websocket m_close : Bool) : Bytes :=
  if m_websocket then []
  else headerLine (ascii "connection", if m_close then ascii "close" else ascii "keep-alive")

/-- A version, of which each half of the byte is a number. -/
def dumpVersion (m_version : UInt8) : Bytes :=
  ascii "HTTP/" ++ decimal (m_version >>> 4).toNat ++ ascii "." ++
    decimal (m_version &&& 0x0F).toNat

def HttpRequest.dump (request : HttpRequest) : Bytes :=
  HttpMethodToString request.m_method ++ ascii " " ++ request.m_path ++
    (if request.m_query = [] then [] else ascii "?") ++ request.m_query ++
    (if request.m_fragment = [] then [] else ascii "#") ++ request.m_fragment ++
    ascii " " ++ dumpVersion request.m_version ++ ascii "\r\n" ++
    dumpConnection request.m_websocket request.m_close ++
    dumpHeaders request.m_websocket request.m_headers ++
    if request.m_body ≠ [] then
      ascii "content-length2: " ++ decimal request.m_body.length ++ ascii "\r\n\r\n" ++
        request.m_body
    else ascii "\r\n"

def HttpResponse.dump (response : HttpResponse) : Bytes :=
  dumpVersion response.m_version ++ ascii " " ++ decimal (response.m_status % 2 ^ 32).toNat ++
    ascii " " ++
    (if response.m_reason = [] then HttpStatusToString response.m_status else response.m_reason) ++
    ascii "\r\n" ++
    dumpHeaders response.m_websocket response.m_headers ++
    (response.m_cookies.flatMap fun i => ascii "Set-Cookie: " ++ i ++ ascii "\r\n") ++
    dumpConnection response.m_websocket response.m_close ++
    if response.m_body ≠ [] then
      ascii "content-length: " ++ decimal response.m_body.length ++ ascii "\r\n\r\n" ++
        response.m_body
    else ascii "\r\n"

end Exhy.Http
