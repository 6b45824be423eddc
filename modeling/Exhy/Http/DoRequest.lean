import Exhy.Http.Exchange
import Exhy.Uri.Components

/-!
# Requests for a URL

The requests that `DoRequest` and the pool's `doRequest` of `http_connection.cpp` make of a URL
and headers, and what a server has of them.
-/

namespace Exhy.Http

open Library

/-- The given headers, in the order of their `std::map`. -/
abbrev Headers := List (Bytes × Bytes)

def isConnection (i : Bytes × Bytes) : Bool := folded i.1 = folded (ascii "connection")

def isHost (i : Bytes × Bytes) : Bool := folded i.1 = folded (ascii "host")

def isKeepAlive (i : Bytes × Bytes) : Bool := folded i.2 = folded (ascii "keep-alive")

namespace HttpRequest

/-- One round of the loop over the headers, with `has_host`. -/
def addHeader (state : HttpRequest × Bool) (i : Bytes × Bytes) : HttpRequest × Bool :=
  let (req, has_host) := state
  if isConnection i then (if isKeepAlive i then { req with m_close := false } else req, has_host)
  else (req.setHeader i.1 i.2, if !has_host && isHost i then i.2 ≠ [] else has_host)

/-- The loop over the headers, and the header that stands in for a host. -/
def addHeaders (req : HttpRequest) (headers : Headers) (host : Bytes) : HttpRequest :=
  let (req, has_host) := headers.foldl addHeader (req, false)
  if !has_host then req.setHeader (ascii "Host") host else req

end HttpRequest

/-- The request of `HttpConnection::DoRequest(method, uri, timeout_ms, headers, body)`. -/
def HttpConnection.request (method : HttpMethod) (uri : Uri) (headers : Headers)
    (body : Bytes) : HttpRequest :=
  { HttpRequest.addHeaders
      { m_path := uri.getPath
        m_query := uri.getQuery
        m_fragment := uri.getFragment
        m_method := method }
      headers uri.getHost with m_body := body }

namespace HttpConnectionPool

/-- The text that the pool makes of a URL. -/
def target (uri : Uri) : Bytes :=
  uri.getPath ++ (if uri.getQuery = [] then [] else ascii "?") ++ uri.getQuery ++
    (if uri.getFragment = [] then [] else ascii "#") ++ uri.getFragment

/-- The request of `doRequest(method, url, timeout_ms, headers, body)`. -/
def requestOf (m_host m_vhost : Bytes) (method : HttpMethod) (url : Bytes) (headers : Headers)
    (body : Bytes) : HttpRequest :=
  { HttpRequest.addHeaders { m_path := url, m_method := method, m_close := false } headers
      (if m_vhost = [] then m_host else m_vhost) with m_body := body }

/-- The request of `doRequest(method, uri, timeout_ms, headers, body)`. -/
def request (m_host m_vhost : Bytes) (method : HttpMethod) (uri : Uri) (headers : Headers)
    (body : Bytes) : HttpRequest :=
  requestOf m_host m_vhost method (target uri) headers body

end HttpConnectionPool

/-! ## The headers of a request -/

/-- The value of the last header of the name. -/
def lastGiven (headers : Headers) (name : Bytes) : Option Bytes :=
  (headers.reverse.find? fun i => folded i.1 = folded name).map Prod.snd

/-- The value that the request has for the name `host`. -/
def hostGiven (headers : Headers) (host : Bytes) : Option Bytes :=
  if headers.any fun i => isHost i && i.2 ≠ [] then lastGiven headers (ascii "host") else some host

theorem lastGiven_concat (headers : Headers) (i : Bytes × Bytes) (name : Bytes) :
    lastGiven (headers ++ [i]) name =
      if folded i.1 = folded name then some i.2 else lastGiven headers name := by
  simp only [lastGiven, List.reverse_append, List.reverse_singleton, List.singleton_append,
    List.find?_cons]
  by_cases same : folded i.1 = folded name
  · simp [same]
  · simp [same]

theorem not_isConnection {i : Bytes × Bytes} {name : Bytes} (same : folded i.1 = folded name)
    (other : folded name ≠ folded (ascii "connection")) : isConnection i = false := by
  rw [isConnection, same]
  exact decide_eq_false other

namespace HttpRequest

/-- What the loop over the headers leaves. -/
structure Added (req : HttpRequest) (headers : Headers) (after : HttpRequest × Bool) : Prop where
  found : ∀ name, folded name ≠ folded (ascii "connection") →
    after.1.m_headers.find name = (lastGiven headers name).or (req.m_headers.find name)
  has_host : after.2 = headers.any fun i => isHost i && i.2 ≠ []
  rest : after.1 = { req with
    m_headers := after.1.m_headers
    m_close := req.m_close && !headers.any fun i => isConnection i && isKeepAlive i }

variable {req : HttpRequest} {headers : Headers}

theorem isHost_of_isConnection {i : Bytes × Bytes} (connects : isConnection i = true) :
    isHost i = false := by
  rw [isConnection, decide_eq_true_eq] at connects
  rw [isHost, connects]
  decide

theorem added_foldl (req : HttpRequest) (headers : Headers) :
    Added req headers (headers.foldl addHeader (req, false)) := by
  induction headers using List.reverseRecOn with
  | nil =>
      constructor
      · intro name other
        rfl
      · rfl
      · simp
  | append_singleton before i ih =>
      rw [List.foldl_append, List.foldl_cons, List.foldl_nil]
      generalize before.foldl addHeader (req, false) = state at ih
      obtain ⟨current, has_host⟩ := state
      obtain ⟨found, hosts, rest⟩ := ih
      dsimp only at found hosts rest
      rw [addHeader]
      by_cases connects : isConnection i = true
      · have noHost := isHost_of_isConnection connects
        rw [if_pos connects]
        constructor
        · intro name other
          have different : folded i.1 ≠ folded name := by
            intro same
            rw [not_isConnection same other] at connects
            cases connects
          rw [lastGiven_concat, if_neg different, ← found name other]
          cases isKeepAlive i <;> rfl
        · rw [hosts]
          simp [noHost]
        · rw [rest]
          cases keeps : isKeepAlive i <;> simp [connects, keeps]
      · rw [if_neg connects]
        rw [Bool.not_eq_true] at connects
        constructor
        · intro name other
          rw [setHeader, MapType.find_set, lastGiven_concat, found name other]
          by_cases same : folded i.1 = folded name
          · rw [if_pos same, if_pos same, Option.some_or]
          · rw [if_neg same, if_neg same]
        · rw [hosts]
          simp only [List.any_append, List.any_cons, List.any_nil, Bool.or_false]
          cases before.any (fun i => isHost i && i.2 ≠ []) <;> cases isHost i <;> simp
        · dsimp only
          rw [setHeader, rest]
          simp [connects]

theorem find_addHeaders (host : Bytes) {name : Bytes}
    (other : folded name ≠ folded (ascii "connection")) (noHost : folded name ≠ folded (ascii "host")) :
    (req.addHeaders headers host).m_headers.find name =
      (lastGiven headers name).or (req.m_headers.find name) := by
  have found := (added_foldl req headers).found name other
  rw [addHeaders]
  dsimp only
  split
  next =>
    have different : folded (ascii "Host") ≠ folded name := by
      intro same
      exact noHost (same.symm.trans (by decide))
    rw [setHeader, MapType.find_set, if_neg different, found]
  next => exact found

/-- The host that is given last counts, unless no host that is given has a text. -/
theorem find_host_addHeaders (fresh : req.m_headers = []) (host : Bytes) :
    (req.addHeaders headers host).m_headers.find (ascii "host") = hostGiven headers host := by
  have added := added_foldl req headers
  have found := added.found (ascii "host") (by decide)
  have nothing : req.m_headers.find (ascii "host") = none := by
    rw [fresh]
    rfl
  rw [nothing, Option.or_none] at found
  rw [addHeaders, hostGiven, ← added.has_host]
  dsimp only
  cases (headers.foldl addHeader (req, false)).2 with
  | true => exact found
  | false =>
      have same : folded (ascii "Host") = folded (ascii "host") := by decide
      exact (MapType.find_set ..).trans (if_pos same)

/-- The loop changes the headers and the flag alone. -/
theorem addHeaders_rest (req : HttpRequest) (headers : Headers) (host : Bytes) :
    req.addHeaders headers host = { req with
      m_headers := (req.addHeaders headers host).m_headers
      m_close := req.m_close && !headers.any fun i => isConnection i && isKeepAlive i } := by
  have rest := (added_foldl req headers).rest
  rw [addHeaders]
  dsimp only
  split
  next =>
    rw [setHeader, rest]
  next => exact rest

end HttpRequest

/-! ## Sound headers -/

/-- The headers are read as they are, and their names are different. -/
structure HttpRequest.Sound (map : MapType) : Prop where
  ordered : Ordered (fun entry : Bytes × Bytes => folded entry.1) map
  fields : ∀ header ∈ map, RequestBlock.Field header
  ordinary : ∀ header ∈ map, ∀ name ∈ HttpRequest.reserved, folded header.1 ≠ folded name

namespace HttpRequest

open RequestBlock

variable {req : HttpRequest} {map : MapType} {key value : Bytes}

theorem folded_set (map : MapType) (key value : Bytes) :
    (map.set key value).map (fun entry => folded entry.1) =
      (insertBy (fun entry : Bytes × Bytes => folded entry.1) (key, value) map).map
        fun entry => folded entry.1 := by
  rw [MapType.set, List.map_map]
  apply List.map_congr_left
  intro entry _
  dsimp only [Function.comp]
  split <;> rfl

/-- A header of its own name and value keeps the headers sound. -/
theorem Sound.set (sound : Sound map) (field : Field (key, value))
    (ordinary : ∀ name ∈ reserved, folded key ≠ folded name) : Sound (map.set key value) := by
  have kept : ∀ header ∈ map.set key value, ∃ other ∈ (key, value) :: map,
      header.1 = other.1 ∧ (header.2 = value ∨ header = other) := by
    intro header member
    obtain ⟨other, inserted, rfl⟩ := List.mem_map.mp member
    refine ⟨other, List.mem_cons.mpr (mem_insertBy inserted), ?_⟩
    split
    · exact ⟨rfl, .inl rfl⟩
    · exact ⟨rfl, .inr rfl⟩
  constructor
  · have ordered : Ordered (fun entry : Bytes × Bytes => folded entry.1)
        (insertBy (fun entry => folded entry.1) (key, value) map) := sound.ordered.insertBy
    rw [Ordered, ← List.pairwise_map, folded_set, List.pairwise_map]
    exact ordered
  · intro header member
    obtain ⟨other, isOther, sameName, text⟩ := kept header member
    have otherField : Field other := by
      rcases List.mem_cons.mp isOther with rfl | inside
      · exact field
      · exact sound.fields other inside
    rcases text with isValue | rfl
    · exact ⟨sameName ▸ otherField.nonempty, sameName ▸ otherField.isName,
        isValue ▸ field.isText, isValue ▸ field.noBlank⟩
    · exact otherField
  · intro header member name isReserved
    obtain ⟨other, isOther, sameName, -⟩ := kept header member
    rw [sameName]
    rcases List.mem_cons.mp isOther with rfl | inside
    · exact ordinary name isReserved
    · exact sound.ordinary other inside name isReserved

/-- The given headers can be sent; those that say whether to keep the connection are not. -/
structure Given (headers : Headers) : Prop where
  fields : ∀ header ∈ headers, isConnection header = false → Field header
  ordinary : ∀ header ∈ headers, isConnection header = false →
    ∀ name ∈ reserved, folded header.1 ≠ folded name

theorem sound_addHeaders {headers : Headers} {host : Bytes} (sound : Sound req.m_headers)
    (given : Given headers) (named : Field (ascii "Host", host)) :
    Sound (req.addHeaders headers host).m_headers := by
  have looped : Sound (headers.foldl addHeader (req, false)).1.m_headers := by
    generalize false = has_host
    induction headers generalizing req has_host with
    | nil => exact sound
    | cons i later ih =>
        have onward : Given later := ⟨fun header member => given.fields header (.tail _ member),
          fun header member => given.ordinary header (.tail _ member)⟩
        rw [List.foldl_cons, addHeader]
        cases connects : isConnection i with
        | true =>
            apply ih _ onward
            cases isKeepAlive i <;> exact sound
        | false =>
            apply ih _ onward
            exact sound.set (given.fields i List.mem_cons_self connects)
              (given.ordinary i List.mem_cons_self connects)
  rw [addHeaders]
  dsimp only
  split
  · exact looped.set named (by decide)
  · exact looped

end HttpRequest

/-! ## The parts of a URL in the grammar of requests -/

namespace RequestLine

open Machine

variable {uri_relaxed : Bool} {text : Bytes}

/-- What may stand in a part of a URL may stand in that part of a request. -/
theorem pchar_language (member : text ∈ (Uri.Grammar.pchar).language) :
    text ∈ (Http11.Grammar.pchar uri_relaxed).language := by
  have plain : ∀ byte, inRanges (Uri.Grammar.notAscii ++ Uri.Grammar.unreserved ++
      Uri.Grammar.sub_delims ++ chars ":@") byte = true →
      inRanges (Http11.Grammar.notAscii ++ Http11.Grammar.unreserved ++
        Http11.Grammar.sub_delims uri_relaxed ++ chars ":@") byte = true := by
    cases uri_relaxed
    · exact forall_byte (by decide +kernel)
    · exact forall_byte (by decide +kernel)
  rcases mem_language_alt.mp member with ⟨byte, inside, rfl⟩ | escape
  · exact mem_language_alt.mpr (.inl ⟨byte, plain byte inside, rfl⟩)
  · exact mem_language_alt.mpr (.inr escape)

theorem star_language {Left Right : Type} {left : Machine Left} {right : Machine Right}
    (included : ∀ text, text ∈ left.language → text ∈ right.language)
    (member : text ∈ (star left).language) : text ∈ (star right).language :=
  kstar_mono (show left.language ≤ right.language from included) member

theorem query_accepted (member : text ∈ (Uri.Grammar.pchars).language) :
    accepts (queryPart uri_relaxed) text := by
  have free : (queryPart uri_relaxed).unguarded = true := by cases uri_relaxed <;> rfl
  apply (final_walk free text).mpr
  apply star_language _ member
  intro piece isPiece
  rcases mem_language_alt.mp isPiece with inside | others
  · exact mem_language_alt.mpr (.inl (pchar_language inside))
  · exact mem_language_alt.mpr (.inr others)

theorem segments_language (member : text ∈ (Uri.Grammar.segments).language) :
    text ∈ (Http11.Grammar.path_abempty uri_relaxed).language := by
  apply star_language _ member
  intro piece isPiece
  obtain ⟨slash, segment, rfl, isSlash, inside⟩ := mem_language_seq.mp isPiece
  exact mem_language_seq.mpr ⟨slash, segment, rfl, isSlash, star_language (fun _ => pchar_language)
    inside⟩

theorem segments_of_path_abempty (member : text ∈ (Uri.Grammar.path_abempty).language) :
    text ∈ (Uri.Grammar.segments).language := by
  obtain ⟨first, later, rfl, isFirst, isLater⟩ := mem_language_seq.mp member
  rcases mem_language_opt.mp isFirst with inside | rfl
  · cases first with
    | nil => exact isLater
    | cons byte more =>
        exact mem_language_star.mpr (.inr ⟨_, _, rfl, List.cons_ne_nil _ _, inside, isLater⟩)
  · exact isLater

/-- A path of a URL that does not begin with two slashes. -/
theorem path_accepted (member : text ∈ (Uri.Grammar.path_abempty).language) (some : text ≠ [])
    (noAuthority : ¬ascii "//" <+: text) : accepts (Http11.Grammar.relative_part uri_relaxed) text := by
  have free : (Http11.Grammar.relative_part uri_relaxed).unguarded = true := by
    cases uri_relaxed <;> rfl
  apply (final_walk free text).mpr
  apply mem_language_alt.mpr (.inr (mem_language_alt.mpr (.inl _)))
  rcases mem_language_star.mp (segments_of_path_abempty member) with
    empty | ⟨first, later, rfl, -, isFirst, isLater⟩
  · exact absurd empty some
  · obtain ⟨slash, segment, rfl, isSlash, inside⟩ := mem_language_seq.mp isFirst
    rw [List.append_assoc]
    refine mem_language_seq.mpr ⟨slash, segment ++ later, rfl, isSlash, ?_⟩
    rw [mem_language_opt]
    rcases mem_language_star.mp inside with rfl | ⟨piece, pieces, rfl, -, isPiece, arePieces⟩
    · rcases mem_language_star.mp isLater with rfl | ⟨second, _, rfl, -, isSecond, -⟩
      · exact .inr rfl
      · obtain ⟨again, _, rfl, isAgain, -⟩ := mem_language_seq.mp isSecond
        rw [mem_language_literal.mp isSlash, mem_language_literal.mp isAgain] at noAuthority
        exact absurd ⟨_, rfl⟩ noAuthority
    · exact .inl (mem_language_seq.mpr ⟨piece ++ pieces, later, rfl,
        mem_language_seq.mpr ⟨piece, pieces, rfl, pchar_language isPiece,
          star_language (fun _ => pchar_language) arePieces⟩, segments_language isLater⟩)

end RequestLine

/-! ## What arrives -/

/-- Who sends the request. -/
inductive Sender where
  | connection
  | pool (m_host m_vhost : Bytes)

namespace Sender

/-- The host where none is given. -/
def host : Sender → Uri → Bytes
  | connection, uri => uri.getHost
  | pool m_host m_vhost, _ => if m_vhost = [] then m_host else m_vhost

def request (method : HttpMethod) (uri : Uri) (headers : Headers) (body : Bytes) :
    Sender → HttpRequest
  | connection => HttpConnection.request method uri headers body
  | pool m_host m_vhost => HttpConnectionPool.request m_host m_vhost method uri headers body

/-- Whether the request asks to close the connection. -/
def closes (headers : Headers) : Sender → Bool
  | connection => !headers.any fun i => isConnection i && isKeepAlive i
  | pool _ _ => false

end Sender

/-- The server has the parts of the URL, and of the headers of a name the last one that is given;
`connection` is the sender's, there is a host, and of a body there is the length alone, under a name
of its own. -/
structure Arrives (sender : Sender) (method : HttpMethod) (uri : Uri) (headers : Headers)
    (body : Bytes) (received : HttpRequest) : Prop where
  method : received.m_method = method
  path : received.m_path = uri.getPath
  query : received.m_query = uri.getQuery
  fragment : received.m_fragment = uri.getFragment
  version : received.m_version = 0x11
  close : received.m_close = sender.closes headers
  noBody : received.m_body = []
  length : body ≠ [] →
    received.m_headers.find (ascii "content-length2") = some (decimal body.length)
  connection : received.m_headers.find (ascii "connection") =
    some (if sender.closes headers then ascii "close" else ascii "keep-alive")
  host : received.m_headers.find (ascii "host") = hostGiven headers (sender.host uri)
  headers : ∀ name, folded name ≠ folded (ascii "connection") →
    folded name ≠ folded (ascii "host") →
    (body = [] ∨ folded name ≠ folded (ascii "content-length2")) →
    received.m_headers.find name = lastGiven headers name

namespace Sender

open HttpRequest HttpSession RequestBlock RequestLine

variable {sender : Sender} {method : HttpMethod} {uri : Uri} {headers : Headers}

/-- The request with the parts of its target. -/
def apart (sender : Sender) (method : HttpMethod) (uri : Uri) (headers : Headers)
    (body : Bytes) : HttpRequest :=
  { HttpRequest.addHeaders
      { m_path := uri.getPath
        m_query := uri.getQuery
        m_fragment := uri.getFragment
        m_method := method
        m_close := sender.closes [] }
      headers (sender.host uri) with m_body := body }

/-- The headers do not depend on the other parts. -/
theorem foldl_addHeader_congr {left right : HttpRequest}
    (same : left.m_headers = right.m_headers) (headers : Headers) (has_host : Bool) :
    (headers.foldl addHeader (left, has_host)).1.m_headers =
        (headers.foldl addHeader (right, has_host)).1.m_headers ∧
      (headers.foldl addHeader (left, has_host)).2 =
        (headers.foldl addHeader (right, has_host)).2 := by
  induction headers generalizing left right has_host with
  | nil => exact ⟨same, rfl⟩
  | cons i later ih =>
      rw [List.foldl_cons, List.foldl_cons, addHeader, addHeader]
      cases isConnection i with
      | true =>
          rw [if_pos rfl, if_pos rfl]
          cases isKeepAlive i with
          | true => exact @ih { left with m_close := false } { right with m_close := false } same _
          | false => exact @ih left right same _
      | false =>
          have set := congrArg (fun map : MapType => map.set i.1 i.2) same
          exact @ih (left.setHeader i.1 i.2) (right.setHeader i.1 i.2) set _

theorem addHeaders_congr {left right : HttpRequest} (same : left.m_headers = right.m_headers)
    (headers : Headers) (host : Bytes) :
    (left.addHeaders headers host).m_headers = (right.addHeaders headers host).m_headers := by
  obtain ⟨map, has_host⟩ := foldl_addHeader_congr same headers false
  rw [addHeaders, addHeaders]
  dsimp only
  rw [has_host]
  split
  · exact congrArg (fun map : MapType => map.set (ascii "Host") host) map
  · exact map

theorem apart_eq (sender : Sender) (method : HttpMethod) (uri : Uri) (headers : Headers)
    (body : Bytes) :
    sender.apart method uri headers body =
      { m_path := uri.getPath
        m_query := uri.getQuery
        m_fragment := uri.getFragment
        m_method := method
        m_close := sender.closes headers
        m_headers := (sender.apart method uri headers body).m_headers
        m_body := body } := by
  have close : (sender.closes [] && !headers.any fun i => isConnection i && isKeepAlive i) =
      sender.closes headers := by
    cases sender <;> rfl
  rw [← close, apart, addHeaders_rest]

/-- A target is written as its parts are. -/
theorem dump_request (sender : Sender) (method : HttpMethod) (uri : Uri) (headers : Headers)
    (body : Bytes) :
    (sender.request method uri headers body).dump = (sender.apart method uri headers body).dump := by
  cases sender with
  | connection => rfl
  | pool m_host m_vhost =>
      have same : (HttpRequest.addHeaders
          { m_path := HttpConnectionPool.target uri, m_method := method, m_close := false } headers
            (if m_vhost = [] then m_host else m_vhost)).m_headers =
          ((pool m_host m_vhost).apart method uri headers body).m_headers := by
        apply addHeaders_congr
        rfl
      rw [request, HttpConnectionPool.request, HttpConnectionPool.requestOf, addHeaders_rest, same,
        apart_eq]
      simp [HttpRequest.dump, HttpConnectionPool.target, closes]

theorem apart_sendable {url : Bytes} (created : Uri.Create url = some (some uri))
    (isMethod : methodText (HttpMethodToString method)) (given : Given headers)
    (named : Field (ascii "Host", sender.host uri)) (noAuthority : ¬ascii "//" <+: uri.getPath)
    (body : Bytes) (uri_relaxed : Bool) :
    (sender.apart method uri headers body).Sendable uri_relaxed := by
  obtain ⟨reference, isText⟩ := Uri.exists_reference created
  obtain rfl := Uri.saved_of_Create created isText
  have sound : Sound (sender.apart method reference.saved headers body).m_headers := by
    apply sound_addHeaders _ given named
    exact ⟨List.Pairwise.nil, List.forall_mem_nil _, List.forall_mem_nil _⟩
  have path : accepts (Http11.Grammar.relative_part uri_relaxed) reference.saved.getPath := by
    rw [Uri.getPath] at noAuthority ⊢
    split
    next =>
      show accepts (Http11.Grammar.relative_part uri_relaxed) (ascii "/")
      cases uri_relaxed <;> decide +kernel
    next some =>
      rw [if_neg some] at noAuthority
      have saves : reference.savesPath = true := by
        by_contra notSaved
        exact some (if_neg notSaved)
      have isSaved : reference.saved.m_path = reference.path := if_pos saves
      rw [isSaved] at some noAuthority ⊢
      have isPath := reference.isPath
      rw [Uri.Reference.savesPath, Bool.and_eq_true] at saves
      rw [if_pos saves.2] at isPath
      exact path_accepted isPath some noAuthority
  have part : ∀ component : Option Bytes,
      (∀ text ∈ component, text ∈ (Uri.Grammar.pchars).language) →
      accepts (queryPart uri_relaxed) (component.getD []) := by
    intro component inside
    cases component with
    | none => exact query_accepted (Language.nil_mem_kstar _)
    | some text => exact query_accepted (inside text rfl)
  rw [apart_eq]
  constructor
  · exact isMethod
  · exact path
  · exact part reference.query reference.isQuery
  · exact part reference.fragment reference.isFragment
  · exact .inr rfl
  · exact (List.pairwise_map.mpr sound.ordered).imp ne_of_lt
  · exact sound.fields
  · exact sound.ordinary

end Sender

/-- A server that reads the request of a URL at once has the parts of the URL and the headers that
were given. -/
theorem request_arrives {url : Bytes} {uri : Uri}
    (created : Uri.Create url = some (some uri)) (sender : Sender) (method : HttpMethod)
    (isMethod : RequestBlock.methodText (HttpMethodToString method)) (headers : Headers)
    (given : HttpRequest.Given headers)
    (named : RequestBlock.Field (ascii "Host", sender.host uri))
    (noAuthority : ¬ascii "//" <+: uri.getPath) (body : Bytes) (memory : HttpParser)
    {buff_size : Nat} (small : buff_size < 2 ^ 31)
    (fits : (sender.request method uri headers body).dump.length ≤ buff_size) :
    ∃ received, HttpSession.recvRequest memory buff_size
        [(sender.request method uri headers body).dump] = .ok (received, []) ∧
      Arrives sender method uri headers body received := by
  rw [Sender.dump_request] at fits ⊢
  have sendable :=
    Sender.apart_sendable created isMethod given named noAuthority body memory.uri_relaxed
  have parts := Sender.apart_eq sender method uri headers body
  have isBody : (sender.apart method uri headers body).m_body = body :=
    congrArg HttpRequest.m_body parts
  have noSocket : (sender.apart method uri headers body).m_websocket = false :=
    congrArg HttpRequest.m_websocket parts
  have close : (sender.apart method uri headers body).m_close = sender.closes headers :=
    congrArg HttpRequest.m_close parts
  have whole : (sender.apart method uri headers body).block.length ≤
      (sender.apart method uri headers body).dump.length := by
    rw [sendable.dump_eq, List.length_append]
    exact Nat.le_add_right ..
  refine ⟨_, HttpSession.recvRequest_dump small sendable List.flatten_singleton whole fits, ?_⟩
  rw [HttpSession.init_of_close]
  constructor
  case method => exact congrArg HttpRequest.m_method parts
  case path => exact congrArg HttpRequest.m_path parts
  case query => exact congrArg HttpRequest.m_query parts
  case fragment => exact congrArg HttpRequest.m_fragment parts
  case version => exact congrArg HttpRequest.m_version parts
  case close =>
    dsimp only
    rw [HttpSession.init_close sendable, noSocket, if_neg Bool.false_ne_true, close]
  case noBody => rfl
  case length =>
    intro some
    rw [← isBody] at some ⊢
    exact HttpSession.find_length_readBlock some
  case connection =>
    dsimp only
    rw [HttpSession.find_connection_readBlock sendable, noSocket, close]
    rfl
  case host =>
    dsimp only
    rw [HttpSession.find_readBlock sendable (by decide) (.inr (by decide))]
    exact HttpRequest.find_host_addHeaders rfl _
  case headers =>
    intro name other noHost noLength
    rw [← isBody] at noLength
    dsimp only
    rw [HttpSession.find_readBlock sendable other noLength, Sender.apart]
    dsimp only
    rw [HttpRequest.find_addHeaders _ other noHost]
    exact Option.or_none

/-- A form sent through a pool, with a header given twice. -/
theorem request_arrives_pool : ∃ uri,
    Uri.Create (ascii "http://exhy/a?x=1#f") = some (some uri) ∧
      ∃ received, HttpSession.recvRequest HttpSession.zeros 4096
          [((Sender.pool (ascii "exhy") []).request .POST uri
            [(ascii "A", ascii "1"), (ascii "a", ascii "2")] (ascii "b=3")).dump] =
              .ok (received, []) ∧
        Arrives (.pool (ascii "exhy") []) .POST uri
          [(ascii "A", ascii "1"), (ascii "a", ascii "2")] (ascii "b=3") received := by
  have created : Uri.Create (ascii "http://exhy/a?x=1#f") = some (some
      { m_scheme := ascii "http", m_host := ascii "exhy", m_path := ascii "/a",
        m_query := ascii "x=1", m_fragment := ascii "f" }) := by decide +kernel
  refine ⟨_, created, ?_⟩
  apply request_arrives created _ _ (by decide) _ _ _ (by decide) _ _ (by decide)
    (by decide +kernel)
  · constructor
    · intro header member _
      rcases List.mem_cons.mp member with rfl | isLast
      · exact ⟨by decide, by decide, by decide, by decide⟩
      · rw [List.mem_singleton.mp isLast]
        exact ⟨by decide, by decide, by decide, by decide⟩
    · intro header member _
      rcases List.mem_cons.mp member with rfl | isLast
      · decide
      · rw [List.mem_singleton.mp isLast]
        decide
  · exact ⟨by decide, by decide, by decide, by decide⟩

end Exhy.Http
