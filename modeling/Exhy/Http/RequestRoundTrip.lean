import Exhy.Http.RequestBlock

/-!
# A request, sent and received

What `HttpSession::recvRequest` makes of the bytes that `HttpRequest::dump` writes.
-/

namespace Exhy.Http

open Library Machine Http11

/-! ## What the parser makes of a text -/

namespace RequestBlock

open HttpRequestParser RequestLine

/-- The parser has the request so far, with no error, and the request is no message of a socket. -/
structure Knows (request : HttpRequest) (parser : HttpRequestParser) : Prop where
  request : parser.m_data = request
  error : parser.m_error = 0
  xml : parser.mParser.xml_sent = false
  json : parser.mParser.json_sent = false

/-- The parser with other registers. -/
def registers (parser : HttpRequestParser) (change : HttpParser → HttpParser) :
    HttpRequestParser :=
  { parser with mParser := change parser.mParser }

/-- From one state to another over a text, which makes one request of another. -/
def Reads (text : Bytes) (cs next : List (Machine Action)) (before after : HttpRequest) : Prop :=
  ∀ (buffer rest : Bytes) (place : Nat) (parser : HttpRequestParser), Knows before parser →
    buffer.drop place = text ++ rest →
    ∃ later, exec (effect buffer) breaks (text ++ rest) place cs parser =
        exec (effect buffer) breaks rest (place + text.length) next later ∧ Knows after later

theorem Reads.append {first second : Bytes} {cs mid next : List (Machine Action)}
    {before between after : HttpRequest} (reads : Reads first cs mid before between)
    (onward : Reads second mid next between after) : Reads (first ++ second) cs next before after := by
  intro buffer rest place parser knows here
  rw [List.append_assoc] at here ⊢
  obtain ⟨middle, ran, knowsMiddle⟩ := reads buffer (second ++ rest) place parser knows here
  obtain ⟨later, ranLater, knowsLater⟩ :=
    onward buffer rest (place + first.length) middle knowsMiddle (drop_behind here)
  rw [List.length_append, ← Nat.add_assoc]
  exact ⟨later, ran.trans ranLater, knowsLater⟩

section Effects

variable {buffer rest word : Bytes} {place : Nat} {parser : HttpRequestParser}
  {request : HttpRequest} {uri_relaxed : Bool}

theorem text_word (here : buffer.drop place = word ++ rest) :
    text (buffer.drop place) ((place + word.length : Nat) - place) = some word := by
  have size : ((place + word.length : Nat) : Int) - place = word.length := by omega
  rw [size, here, text_prefix]

/-- The parser at the beginning of a word. -/
def marked (parser : HttpRequestParser) (place : Nat) : HttpRequestParser :=
  registers parser fun parser => { parser with mark := place }

theorem Knows.marked (knows : Knows request parser) (place : Nat) :
    Knows request (marked parser place) :=
  ⟨knows.request, knows.error, knows.xml, knows.json⟩

/-- The parser with more of the request. -/
theorem Knows.setData (knows : Knows request parser) (change : HttpRequest → HttpRequest) :
    Knows (change request) { parser with m_data := change parser.m_data } :=
  ⟨congrArg change knows.request, knows.error, knows.xml, knows.json⟩

theorem effect_of_callback {action : Action} {data : Parsed}
    (told : parser.mParser.callback buffer place parser.toParsed action = some data) :
    effect buffer place action parser = some ⟨data, parser.mParser.register place action⟩ := by
  rw [effect, told, Option.map_some]

/-- A byte without an action. -/
theorem reads_byte {byte : UInt8} {cs next : List (Machine Action)}
    (stepped : step cs byte = some (next, [])) : Reads [byte] cs next request request := by
  intro buffer rest place parser knows here
  exact ⟨parser, exec_step stepped rfl rest, knows⟩

/-- A word that becomes a part of the request, with the byte behind it. -/
theorem reads_word {cs next : List (Machine Action)} {stop : UInt8} {first action : Action}
    {last : List Action} (begun : HttpRequestParser → Nat → HttpRequestParser)
    (change : HttpRequest → HttpRequest)
    (traced : trace cs (word ++ [stop]) =
      some (spanActions first (action :: last) word.length, next))
    (opened : ∀ buffer place parser, effect buffer place first parser = some (begun parser place))
    (knows : ∀ {parser} place, Knows request parser → Knows request (begun parser place))
    (told : ∀ buffer rest place parser, buffer.drop place = word ++ stop :: rest →
      effect buffer (place + word.length) action (begun parser place) =
        some { begun parser place with m_data := change (begun parser place).m_data })
    (quiet : breaks first = false ∧ breaks action = false)
    (later : last = [] ∨ last = [.request_uri]) :
    Reads (word ++ [stop]) cs next request (change request) := by
  intro buffer rest place parser known here
  rw [List.append_assoc, List.singleton_append] at here ⊢
  have closed : perform (effect buffer) breaks (place + word.length) (action :: last)
      (begun parser place) =
        some ({ begun parser place with m_data := change (begun parser place).m_data }, false) := by
    rw [perform_cons (told buffer rest place parser here) quiet.2]
    rcases later with rfl | rfl
    · rfl
    · rfl
  refine ⟨_, ?_, (knows place known).setData change⟩
  rw [List.length_append, List.length_singleton, ← Nat.add_assoc]
  exact exec_span traced (opened buffer place parser) quiet.1 closed rest

theorem CharsToHttpMethod_text : ∀ entry ∈ HTTP_METHOD_MAP,
    CharsToHttpMethod entry.2 = entry.1 ∧ entry.1 ≠ .INVALID_METHOD := by
  decide +kernel

/-- The method, with its blank. -/
theorem reads_method {entry : HttpMethod × Bytes} (member : entry ∈ HTTP_METHOD_MAP)
    (isText : methodText entry.2) :
    Reads (entry.2 ++ [0x20]) [Grammar.main uri_relaxed] (targetState uri_relaxed) request
      { request with m_method := entry.1 } := by
  obtain ⟨known, valid⟩ := CharsToHttpMethod_text entry member
  apply reads_word marked ({ · with m_method := entry.1 }) (trace_method uri_relaxed entry member isText)
    (fun _ _ _ => rfl) (fun place knows => knows.marked place) _ ⟨rfl, rfl⟩ (.inl rfl)
  intro buffer rest place parser here
  apply effect_of_callback
  show some ((marked parser place).on_request_method (buffer.drop place)) = _
  rw [Parsed.on_request_method, here, CharsToHttpMethod_stop, known]
  split
  next invalid => exact absurd invalid valid
  next => rfl

/-- The path, with what stands behind it. -/
theorem reads_path {stop : UInt8} (isStop : stop ∈ stops)
    (accepted : accepts (Grammar.relative_part uri_relaxed) word) :
    Reads (word ++ [stop]) (targetState uri_relaxed) (behind uri_relaxed stop) request
      { request with m_path := word } := by
  apply reads_word marked ({ · with m_path := word }) (trace_path accepted isStop)
    (fun _ _ _ => rfl) (fun place knows => knows.marked place) _ ⟨rfl, rfl⟩
  · split
    · exact .inl rfl
    · exact .inr rfl
  · intro buffer rest place parser here
    apply effect_of_callback
    show (marked parser place).on_request_path (buffer.drop place)
      ((place + word.length : Nat) - place) = _
    rw [Parsed.on_request_path, text_word here, Option.map_some]

/-- The query, with what stands behind it. -/
theorem reads_query {stop : UInt8} (isStop : stop ∈ [0x23, 0x20])
    (accepted : accepts (queryPart uri_relaxed) word) (nonempty : word ≠ []) :
    Reads (word ++ [stop]) (queryState uri_relaxed) (behind uri_relaxed stop) request
      { request with m_query := word } := by
  apply reads_word (fun parser place => registers parser ({ · with query_start := place }))
    ({ · with m_query := word }) (trace_query accepted nonempty isStop) (fun _ _ _ => rfl)
    (fun _ knows => ⟨knows.request, knows.error, knows.xml, knows.json⟩) _ ⟨rfl, rfl⟩ (.inr rfl)
  intro buffer rest place parser here
  apply effect_of_callback
  show parser.on_request_query (buffer.drop place)
      ((place + word.length : Nat) - place) = _
  rw [Parsed.on_request_query, text_word here, Option.map_some]
  rfl

/-- The fragment, with its blank. -/
theorem reads_fragment (accepted : accepts (queryPart uri_relaxed) word) (nonempty : word ≠ []) :
    Reads (word ++ [0x20]) (fragmentState uri_relaxed) versionState request
      { request with m_fragment := word } := by
  apply reads_word marked ({ · with m_fragment := word }) (trace_fragment accepted nonempty)
    (fun _ _ _ => rfl) (fun place knows => knows.marked place) _ ⟨rfl, rfl⟩ (.inl rfl)
  intro buffer rest place parser here
  apply effect_of_callback
  show (marked parser place).on_request_fragment (buffer.drop place)
      ((place + word.length : Nat) - place) = _
  rw [Parsed.on_request_fragment, text_word here, Option.map_some]

theorem on_request_version_dump {version : UInt8} (known : version = 0x10 ∨ version = 0x11)
    (parser : Parsed) (more : Bytes) :
    parser.on_request_version (dumpVersion version ++ more) (dumpVersion version).length =
      { parser with m_data := { parser.m_data with m_version := version } } := by
  rcases known with rfl | rfl
  · rfl
  · rfl

/-- The version, with its line end. -/
theorem reads_version {version : UInt8} (known : version = 0x10 ∨ version = 0x11) :
    Reads (dumpVersion version ++ ascii "\r\n") versionState blockState request
      { request with m_version := version } := by
  obtain ⟨traced, ended⟩ := trace_version known
  have parts : dumpVersion version ++ ascii "\r\n" = dumpVersion version ++ [0x0D] ++ [0x0A] := by
    rw [List.append_assoc]
    rfl
  rw [parts]
  apply Reads.append _ (reads_byte ended)
  apply reads_word marked ({ · with m_version := version }) traced (fun _ _ _ => rfl)
    (fun place knows => knows.marked place) _ ⟨rfl, rfl⟩ (.inl rfl)
  intro buffer rest place parser here
  have size : ((place + (dumpVersion version).length : Nat) : Int) - place =
      (dumpVersion version).length := by omega
  apply effect_of_callback
  show some ((marked parser place).on_request_version (buffer.drop place)
    ((place + (dumpVersion version).length : Nat) - place)) = _
  rw [size, here, on_request_version_dump known]

/-! ### Headers -/

/-- The name of a header, with its colon and the blank. -/
theorem exec_name {start : List (Machine Action)} (isStart : start ∈ lineStates)
    (nonempty : word ≠ []) (isName : ∀ byte ∈ word, inRanges nameBytes byte = true) (rest : Bytes) :
    exec (effect buffer) breaks (word ++ (ascii ": " ++ rest)) place start parser =
      exec (effect buffer) breaks rest (place + word.length + 2) blankState
        (registers parser ({ · with
          field_start := place, field_len := (place + word.length : Nat) - place,
          mark := place + word.length + 1 })) := by
  have starts : ∀ code ∈ word.head?, inRanges nameBytes code = true := by
    intro code isHead
    exact isName code (List.mem_of_mem_head? isHead)
  have traced := trace_span (headerMoves.opens_name start isStart) headerMoves.more_of_name
    headerMoves.behind_name (fun empty => absurd empty nonempty) starts isName
  exact (exec_span traced rfl rfl rfl (0x20 :: rest)).trans (exec_step headerMoves.behind_colon rfl rest)

/-- A value, with the first byte of its line end. -/
theorem trace_value (isText : ∀ byte ∈ word, inRanges valueBytes byte = true)
    (starts : ∀ byte ∈ word.head?, byte ≠ 0x20) :
    trace blankState (word ++ [0x0D]) =
      some (spanActions .start_value [.write_value] word.length, returnState) := by
  have letters : ∀ byte : UInt8, inRanges valueBytes byte = true → byte ≠ 0x20 →
      inRanges letterBytes byte = true :=
    forall_byte (by decide +kernel)
  apply trace_span headerMoves.opens_value headerMoves.more_of_value headerMoves.behind_value.1
    (fun _ => headerMoves.behind_value.2.1) _ isText
  intro byte isHead
  exact letters byte (isText byte (List.mem_of_mem_head? isHead)) (starts byte isHead)

/-- A header that is read as it is. -/
structure Field (header : Bytes × Bytes) : Prop where
  nonempty : header.1 ≠ []
  isName : ∀ byte ∈ header.1, inRanges nameBytes byte = true
  isText : ∀ byte ∈ header.2, inRanges valueBytes byte = true
  noBlank : ∀ byte ∈ header.2.head?, byte ≠ 0x20

theorem exec_header {name value : Bytes} (field : Field (name, value))
    {start : List (Machine Action)} (isStart : start ∈ lineStates) (knows : Knows request parser)
    (here : buffer.drop place = name ++ (ascii ": " ++ (value ++ 0x0D :: 0x0A :: rest))) :
    ∃ after, exec (effect buffer) breaks (name ++ (ascii ": " ++ (value ++ 0x0D :: 0x0A :: rest)))
          place start parser =
        exec (effect buffer) breaks rest (place + name.length + 2 + value.length + 1 + 1)
          headerState after ∧
      Knows (request.setHeader name value) after := by
  have behindName : buffer.drop (place + name.length + 2) = value ++ 0x0D :: 0x0A :: rest :=
    drop_behind (drop_behind here)
  have named := @exec_name buffer name place parser start isStart field.nonempty field.isName
    (value ++ 0x0D :: 0x0A :: rest)
  have known : text (buffer.drop place) ((place + name.length : Nat) - place) = some name :=
    text_word here
  have size : ((place + name.length : Nat) : Int) - place ≠ 0 := by
    have some : 0 < name.length := List.length_pos_of_ne_nil field.nonempty
    omega
  generalize fieldedIs : registers parser ({ · with
    field_start := place, field_len := (place + name.length : Nat) - place,
    mark := place + name.length + 1 }) = fielded at named
  have knowsName : Knows request (marked fielded (place + name.length + 2)) := by
    rw [← fieldedIs]
    exact ⟨knows.request, knows.error, knows.xml, knows.json⟩
  have told : effect buffer (place + name.length + 2 + value.length) .write_value
      (marked fielded (place + name.length + 2)) =
        some { marked fielded (place + name.length + 2) with
          m_data := (marked fielded (place + name.length + 2)).m_data.setHeader name value } := by
    apply effect_of_callback
    rw [← fieldedIs]
    show Parsed.on_request_http_field _ (buffer.drop place) ((place + name.length : Nat) - place)
      (buffer.drop (place + name.length + 2))
      ((place + name.length + 2 + value.length : Nat) - (place + name.length + 2 : Nat)) = _
    rw [Parsed.on_request_http_field, if_neg size, known, text_word behindName]
  have opened : effect buffer (place + name.length + 2) .start_value fielded =
      some (marked fielded (place + name.length + 2)) := rfl
  have closed := (@perform_cons _ _ _ breaks _ _ [] _ _ told rfl).trans rfl
  have valued := exec_span (trace_value field.isText field.noBlank) opened rfl closed (0x0A :: rest)
  exact ⟨_, named.trans (valued.trans (exec_step headerMoves.behind_value.2.2 rfl rest)),
    knowsName.setData fun request => request.setHeader name value⟩

theorem reads_header {header : Bytes × Bytes} (field : Field header)
    {start : List (Machine Action)} (isStart : start ∈ lineStates) :
    Reads (headerLine header) start headerState request (request.setHeader header.1 header.2) := by
  intro buffer rest place parser knows here
  obtain ⟨name, value⟩ := header
  have parts : headerLine (name, value) ++ rest =
      name ++ (ascii ": " ++ (value ++ 0x0D :: 0x0A :: rest)) := by
    simp [headerLine, show ascii ": " = [0x3A, 0x20] from rfl,
      show ascii "\r\n" = [0x0D, 0x0A] from rfl]
  have total : place + (headerLine (name, value)).length =
      place + name.length + 2 + value.length + 1 + 1 := by
    simp only [headerLine, List.length_append, show (ascii ": ").length = 2 from rfl,
      show (ascii "\r\n").length = 2 from rfl]
    omega
  rw [parts, total]
  exact exec_header field isStart knows (here.trans parts)

/-- The headers of a request, line after line. -/
theorem reads_headers {headers : List (Bytes × Bytes)} (fields : ∀ header ∈ headers, Field header)
    {start : List (Machine Action)} (isStart : start ∈ lineStates) :
    ∃ next ∈ lineStates, Reads (headers.flatMap headerLine) start next request
      { request with m_headers := request.m_headers.setAll headers } := by
  induction headers generalizing start request with
  | nil =>
      refine ⟨start, isStart, ?_⟩
      intro buffer rest place parser knows here
      exact ⟨parser, rfl, knows⟩
  | cons header later ih =>
      have first := @reads_header request header (fields header List.mem_cons_self) start isStart
      obtain ⟨next, isNext, onward⟩ := @ih (request.setHeader header.1 header.2)
        (fun other member => fields other (List.mem_cons_of_mem _ member)) headerState
        (List.mem_cons_of_mem _ (List.mem_singleton.mpr rfl))
      rw [List.flatMap_cons]
      exact ⟨next, isNext, first.append onward⟩

/-- The empty line. -/
theorem exec_end {start : List (Machine Action)} (isStart : start ∈ lineStates)
    (knows : Knows request parser) (rest : Bytes) :
    ∃ after, exec (effect buffer) breaks (ascii "\r\n" ++ rest) place start parser =
        some (after, doneState, place + 2) ∧ Knows request after := by
  generalize begunIs : registers parser ({ · with field_start := place }) = begun
  have knowsBegun : Knows request begun := by
    rw [← begunIs]
    exact ⟨knows.request, knows.error, knows.xml, knows.json⟩
  have first : perform (effect buffer) breaks place [.start_field] parser = some (begun, false) := by
    rw [← begunIs]
    rfl
  have done : begun.mParser.register (place + 1) .done =
      { begun.mParser with body_start := place + 1 + 1 } := by
    have message : ¬(begun.mParser.xml_sent || begun.mParser.json_sent) = true := by
      rw [knowsBegun.xml, knowsBegun.json]
      exact Bool.false_ne_true
    exact if_neg message
  have last : perform (effect buffer) breaks (place + 1) [.done] begun =
      some (registers begun ({ · with body_start := place + 1 + 1 }), true) := by
    have told : effect buffer (place + 1) .done begun = some ⟨begun.toParsed, _⟩ :=
      effect_of_callback rfl
    rw [Machine.perform, told, done]
    rfl
  refine ⟨registers begun ({ · with body_start := place + 1 + 1 }), ?_, ?_⟩
  · exact (exec_step (headerMoves.steps_end.1 start isStart) first (0x0A :: rest)).trans
      (exec_break headerMoves.steps_end.2 last rest)
  · exact ⟨knowsBegun.request, knowsBegun.error, knowsBegun.xml, knowsBegun.json⟩

end Effects

end RequestBlock

/-! ## What is sent -/

namespace HttpRequest

open RequestBlock RequestLine

def sentQuery (request : HttpRequest) : Bytes :=
  if request.m_query = [] then [] else ascii "?" ++ request.m_query

def sentFragment (request : HttpRequest) : Bytes :=
  if request.m_fragment = [] then [] else ascii "#" ++ request.m_fragment

/-- The header that says whether the connection is closed. -/
def connectionHeaders (request : HttpRequest) : List (Bytes × Bytes) :=
  if request.m_websocket then []
  else [(ascii "connection", if request.m_close then ascii "close" else ascii "keep-alive")]

/-- The header with the length of the body: it is no `content-length`. -/
def lengthHeaders (request : HttpRequest) : List (Bytes × Bytes) :=
  if request.m_body = [] then []
  else [(ascii "content-length2", decimal request.m_body.length)]

/-- The headers in the order in which they are written. -/
def sentHeaders (request : HttpRequest) : List (Bytes × Bytes) :=
  request.connectionHeaders ++ request.m_headers ++ request.lengthHeaders

/-- The request line and the lines of headers. -/
def lines (request : HttpRequest) : Bytes :=
  (HttpMethodToString request.m_method ++ [0x20]) ++
    (request.m_path ++ (request.sentQuery ++ (request.sentFragment ++ [0x20]))) ++
    (dumpVersion request.m_version ++ ascii "\r\n") ++
    request.sentHeaders.flatMap headerLine

/-- All that is written in front of the body. -/
def block (request : HttpRequest) : Bytes := request.lines ++ ascii "\r\n"

/-- The names that a request gives to no header of its own. -/
def reserved : List Bytes :=
  [ascii "connection", ascii "content-length", ascii "transfer-encoding"]

/-- A request that is sent as it is: its parts are in the grammar, and its headers are tokens with
texts.  The keys of a map are different. -/
structure Sendable (uri_relaxed : Bool) (request : HttpRequest) : Prop where
  method : methodText (HttpMethodToString request.m_method)
  path : accepts (Grammar.relative_part uri_relaxed) request.m_path
  query : accepts (queryPart uri_relaxed) request.m_query
  fragment : accepts (queryPart uri_relaxed) request.m_fragment
  version : request.m_version = 0x10 ∨ request.m_version = 0x11
  keys : (request.m_headers.map fun header => folded header.1).Nodup
  fields : ∀ header ∈ request.m_headers, Field header
  ordinary : ∀ header ∈ request.m_headers, ∀ name ∈ reserved, folded header.1 ≠ folded name

variable {uri_relaxed : Bool} {request : HttpRequest}

theorem Sendable.dump_eq (sendable : request.Sendable uri_relaxed) :
    request.dump = request.block ++ request.m_body := by
  have kept : request.m_headers.filter (fun i =>
      request.m_websocket || folded i.1 ≠ folded (ascii "connection")) = request.m_headers := by
    rw [List.filter_eq_self]
    intro header member
    have other := sendable.ordinary header member (ascii "connection") (by decide)
    simp [other]
  have connection : dumpConnection request.m_websocket request.m_close =
      request.connectionHeaders.flatMap headerLine := by
    rw [dumpConnection, connectionHeaders]
    split
    · rfl
    · rw [List.flatMap_singleton]
  have query : (if request.m_query = [] then [] else ascii "?") ++ request.m_query =
      request.sentQuery := by
    rw [sentQuery]
    split
    next empty => exact empty
    next => rfl
  have fragment : (if request.m_fragment = [] then [] else ascii "#") ++ request.m_fragment =
      request.sentFragment := by
    rw [sentFragment]
    split
    next empty => exact empty
    next => rfl
  have length : (if request.m_body ≠ [] then
      ascii "content-length2: " ++ decimal request.m_body.length ++ ascii "\r\n\r\n" ++ request.m_body
    else ascii "\r\n") =
      request.lengthHeaders.flatMap headerLine ++ ascii "\r\n" ++ request.m_body := by
    rw [lengthHeaders]
    by_cases empty : request.m_body = []
    · simp [empty]
    · simp [empty, headerLine, ascii]
  rw [dump, dumpHeaders, kept, connection, length, block, lines, sentHeaders, List.flatMap_append,
    List.flatMap_append, ← query, ← fragment]
  simp only [List.append_assoc, show ascii " " = [0x20] from rfl]

end HttpRequest

/-! ## The header block in the parser -/

namespace RequestBlock

open HttpRequest RequestLine

variable {uri_relaxed : Bool} {sent request : HttpRequest}

/-- The method is in the table. -/
theorem HttpMethodToString_mem (isText : methodText (HttpMethodToString request.m_method)) :
    (request.m_method, HttpMethodToString request.m_method) ∈ HTTP_METHOD_MAP := by
  rw [HttpMethodToString] at isText ⊢
  split at isText
  next entry found =>
    have isMethod : entry.1 = request.m_method := by simpa using List.find?_some found
    rw [← isMethod]
    exact List.mem_of_find?_eq_some found
  next => exact absurd isText (by decide)

/-- The fragment, when there is one, and the blank. -/
theorem reads_behind (accepted : accepts (queryPart uri_relaxed) sent.m_fragment)
    (fresh : request.m_fragment = []) :
    ∃ stop ∈ [0x23, 0x20], ∃ rest, sent.sentFragment ++ [0x20] = stop :: rest ∧
      Reads rest (behind uri_relaxed stop) versionState request
        { request with m_fragment := sent.m_fragment } := by
  rw [sentFragment]
  by_cases empty : sent.m_fragment = []
  · refine ⟨0x20, by decide, [], by rw [if_pos empty]; rfl, ?_⟩
    have same : { request with m_fragment := sent.m_fragment } = request := by
      rw [empty, ← fresh]
    rw [same, behind_blank]
    intro buffer rest place parser knows here
    exact ⟨parser, rfl, knows⟩
  · refine ⟨0x23, by decide, sent.m_fragment ++ [0x20], by rw [if_neg empty]; rfl, ?_⟩
    rw [behind_fragment]
    exact reads_fragment accepted empty

/-- The path, the query and the fragment. -/
theorem reads_target (sendable : sent.Sendable uri_relaxed) (noQuery : request.m_query = [])
    (noFragment : request.m_fragment = []) :
    Reads (sent.m_path ++ (sent.sentQuery ++ (sent.sentFragment ++ [0x20]))) (targetState uri_relaxed)
      versionState request
      { request with
        m_path := sent.m_path, m_query := sent.m_query, m_fragment := sent.m_fragment } := by
  rw [sentQuery]
  by_cases empty : sent.m_query = []
  · obtain ⟨stop, isStop, rest, parts, reads⟩ := @reads_behind uri_relaxed sent
      { request with m_path := sent.m_path } sendable.fragment noFragment
    have path := @reads_path _ request _ stop (List.mem_cons_of_mem _ isStop) sendable.path
    have whole := path.append reads
    rw [List.append_assoc, List.singleton_append, ← parts] at whole
    have same : { request with
        m_path := sent.m_path, m_query := sent.m_query, m_fragment := sent.m_fragment } =
          { request with m_path := sent.m_path, m_fragment := sent.m_fragment } := by
      rw [empty, ← noQuery]
    rw [if_pos empty, List.nil_append, same]
    exact whole
  · obtain ⟨stop, isStop, rest, parts, reads⟩ := @reads_behind uri_relaxed sent
      { request with m_path := sent.m_path, m_query := sent.m_query } sendable.fragment noFragment
    have path := @reads_path _ request _ 0x3F List.mem_cons_self sendable.path
    have query := @reads_query _ { request with m_path := sent.m_path } _ stop isStop sendable.query
      empty
    rw [behind_query] at path
    have whole := path.append (query.append reads)
    rw [List.append_assoc, List.append_assoc, List.singleton_append, List.singleton_append,
      ← parts] at whole
    rw [if_neg empty]
    exact whole

theorem fields_connection (request : HttpRequest) :
    ∀ header ∈ request.connectionHeaders, Field header := by
  intro header member
  rw [connectionHeaders] at member
  split at member
  next => cases member
  next =>
    rw [List.mem_singleton.mp member]
    split
    · exact ⟨by decide, by decide, by decide, by decide⟩
    · exact ⟨by decide, by decide, by decide, by decide⟩

theorem fields_length (request : HttpRequest) :
    ∀ header ∈ request.lengthHeaders, Field header := by
  intro header member
  rw [lengthHeaders] at member
  have digits : ∀ byte : UInt8, (digitValue 10 byte).isSome = true →
      inRanges valueBytes byte = true ∧ byte ≠ 0x20 :=
    forall_byte (by decide +kernel)
  have name : ascii "content-length2" ≠ [] ∧
      ∀ byte ∈ ascii "content-length2", inRanges nameBytes byte = true := by
    decide
  split at member
  next => cases member
  next =>
    rw [List.mem_singleton.mp member]
    exact ⟨name.1, name.2, fun byte isDigit => (digits byte (decimal_digits isDigit)).1,
      fun byte isHead => (digits byte (decimal_digits (List.mem_of_mem_head? isHead))).2⟩

theorem fields_sent (sendable : sent.Sendable uri_relaxed) :
    ∀ header ∈ sent.sentHeaders, Field header := by
  intro header member
  rw [sentHeaders, List.mem_append, List.mem_append] at member
  rcases member with (connection | own) | length
  · exact fields_connection sent header connection
  · exact sendable.fields header own
  · exact fields_length sent header length

/-- What the parser has of a request behind its header block. -/
def readBlock (sent : HttpRequest) : HttpRequest where
  m_method := sent.m_method
  m_version := sent.m_version
  m_path := sent.m_path
  m_query := sent.m_query
  m_fragment := sent.m_fragment
  m_headers := MapType.setAll [] sent.sentHeaders

theorem reads_lines (sendable : sent.Sendable uri_relaxed) :
    ∃ next ∈ lineStates,
      Reads sent.lines [Grammar.main uri_relaxed] next {} (readBlock sent) := by
  have method := @reads_method {} uri_relaxed _ (HttpMethodToString_mem sendable.method)
    sendable.method
  have target := @reads_target uri_relaxed sent { m_method := sent.m_method } sendable rfl rfl
  have version := @reads_version
    { m_method := sent.m_method, m_path := sent.m_path, m_query := sent.m_query,
      m_fragment := sent.m_fragment } _ sendable.version
  obtain ⟨next, isNext, headers⟩ := @reads_headers
    { m_method := sent.m_method, m_version := sent.m_version, m_path := sent.m_path,
      m_query := sent.m_query, m_fragment := sent.m_fragment } _ (fields_sent sendable) blockState
      List.mem_cons_self
  exact ⟨next, isNext, ((method.append target).append version).append headers⟩

/-- The actions leave the state of the machine and the count of bytes to the call. -/
theorem exec_keeps_state {buffer rest : Bytes} {cs last : List (Machine Action)} {place stop : Nat}
    {parser next : HttpRequestParser}
    (ran : exec (effect buffer) HttpRequestParser.breaks rest place cs parser =
      some (next, last, stop)) :
    next.mParser.cs = parser.mParser.cs ∧ next.mParser.nread = parser.mParser.nread := by
  have keeps := @exec_keeps _ _ (effect buffer) HttpRequestParser.breaks _
    fun other : HttpRequestParser =>
      other.mParser.cs = parser.mParser.cs ∧ other.mParser.nread = parser.mParser.nread
  apply keeps _ ran ⟨rfl, rfl⟩
  intro place action before after done kept
  obtain ⟨data, -, rfl⟩ := Option.map_eq_some_iff.mp done
  cases action with
  | done =>
      dsimp only [HttpParser.register]
      split
      · exact kept
      · exact kept
  | _ => exact kept

/-- A call of a parser that starts anew. -/
theorem execute_of_exec {memory : HttpParser} {buffer : Bytes} {next : HttpRequestParser}
    {cs : List (Machine Action)} {stop : Nat} (nonempty : buffer ≠ [])
    (ran : exec (effect buffer) HttpRequestParser.breaks buffer 0
      [Grammar.main memory.uri_relaxed] (HttpRequestParser.init memory).reset =
        some (next, cs, stop)) :
    ∃ after, (HttpRequestParser.init memory).execute buffer = some (after, buffer.drop stop) ∧
      after.m_data = next.m_data ∧ after.m_error = next.m_error ∧ after.mParser.cs = cs := by
  obtain ⟨state, nread⟩ := exec_keeps_state ran
  have noError : http_parser_has_error next.mParser = false := by
    rw [http_parser_has_error, state]
    exact decide_eq_false (List.cons_ne_nil _ _)
  have zero : next.mParser.nread = 0 := nread
  have whole := (exec_effect buffer buffer 0 [Grammar.main memory.uri_relaxed]
    (HttpRequestParser.init memory).reset).trans ran
  refine ⟨{ next with mParser := { next.mParser with cs := cs, nread := stop } }, ?_, rfl, rfl, rfl⟩
  rw [HttpRequestParser.execute, http_parser_execute, if_neg nonempty]
  dsimp only [HttpRequestParser.reset, HttpRequestParser.init, http_parser_init] at whole ⊢
  rw [whole]
  simp [noError, zero]

/-- A call on a header block and what follows it. -/
theorem execute_block {memory : HttpParser} (sendable : sent.Sendable memory.uri_relaxed)
    (more : Bytes) :
    ∃ after, (HttpRequestParser.init memory).execute (sent.block ++ more) = some (after, more) ∧
      after.m_data = readBlock sent ∧ after.m_error = 0 ∧ after.mParser.cs = doneState := by
  obtain ⟨next, isNext, reads⟩ := reads_lines sendable
  have fresh : Knows {} (HttpRequestParser.init memory).reset := ⟨rfl, rfl, rfl, rfl⟩
  have parts : sent.block ++ more = sent.lines ++ (ascii "\r\n" ++ more) := by
    rw [block, List.append_assoc]
  have nonempty : sent.block ++ more ≠ [] := by
    rw [parts]
    exact List.append_ne_nil_of_right_ne_nil _ (List.cons_ne_nil _ _)
  obtain ⟨middle, ran, knows⟩ := reads (sent.block ++ more) (ascii "\r\n" ++ more) 0 _ fresh parts
  obtain ⟨last, ranEnd, known⟩ := @exec_end (sent.block ++ more) (0 + sent.lines.length) middle
    (readBlock sent) next isNext knows more
  rw [← parts] at ran
  obtain ⟨after, executed, data, error, state⟩ :=
    execute_of_exec nonempty (ran.trans ranEnd)
  refine ⟨after, ?_, data.trans known.request, error.trans known.error, state⟩
  have length : 0 + sent.lines.length + 2 = sent.block.length := by
    rw [block, List.length_append, Nat.zero_add]
    rfl
  rw [executed, length, List.drop_left]

end RequestBlock

/-! ## The round trip -/

namespace HttpSession

open HttpRequest RequestBlock RequestLine

variable {memory : HttpParser} {sent : HttpRequest}

theorem connectionHeaders_name : ∀ header ∈ sent.connectionHeaders, header.1 = ascii "connection" := by
  intro header member
  rw [connectionHeaders] at member
  split at member
  next => cases member
  next => rw [List.mem_singleton.mp member]

theorem lengthHeaders_name : ∀ header ∈ sent.lengthHeaders, header.1 = ascii "content-length2" := by
  intro header member
  rw [lengthHeaders] at member
  split at member
  next => cases member
  next => rw [List.mem_singleton.mp member]

/-- No header that is sent is the length of the body. -/
theorem no_length (sendable : sent.Sendable memory.uri_relaxed) :
    ∀ header ∈ sent.sentHeaders, folded header.1 ≠ folded (ascii "content-length") := by
  intro header member
  rw [sentHeaders, List.mem_append, List.mem_append] at member
  rcases member with (connection | own) | length
  · rw [connectionHeaders_name header connection]
    decide
  · exact sendable.ordinary header own _ (by decide)
  · rw [lengthHeaders_name header length]
    decide

theorem contentLength_readBlock (sendable : sent.Sendable memory.uri_relaxed) :
    contentLength (readBlock sent) = 0 := by
  rw [contentLength, HttpRequest.getHeaderAsUInt64, readBlock]
  dsimp only
  rw [MapType.find_setAll_of_ne (no_length sendable)]
  decide

/-- What is received: all but the body. -/
theorem recvRequest_dump {buff_size : Nat} {first : Bytes} {later : Socket}
    (small : buff_size < 2 ^ 31) (sendable : sent.Sendable memory.uri_relaxed)
    (arrives : (first :: later : Socket).flatten = sent.dump)
    (whole : sent.block.length ≤ first.length) (fits : first.length ≤ buff_size) :
    recvRequest memory buff_size (first :: later) = .ok ((readBlock sent).init, later) := by
  rw [sendable.dump_eq, List.flatten_cons] at arrives
  obtain ⟨more, rfl⟩ : sent.block <+: first :=
    List.prefix_of_prefix_length_le (List.prefix_append _ _) (arrives ▸ List.prefix_append _ _) whole
  obtain ⟨after, executed, data, error, state⟩ := execute_block sendable more
  have nonempty : sent.block ++ more ≠ [] := by
    rw [block, List.append_assoc]
    exact List.append_ne_nil_of_right_ne_nil _ (List.cons_ne_nil _ _)
  have isFinal : final after.mParser.cs = true := by
    rw [state]
    exact headerMoves.doneState_final
  have short : more.length < buff_size := by
    rw [List.length_append] at fits
    have some : 0 < sent.block.length := by
      rw [block, List.length_append]
      exact Nat.lt_of_lt_of_le (by decide) (Nat.le_add_left (ascii "\r\n").length _)
    omega
  have received := @recvHeader_finished _ _ buff_size ((sent.block ++ more) :: later).flatten.length
    ((sent.block ++ more) :: later) later more after small (read_packet fits) nonempty executed error
    isFinal short
  rw [recvRequest_of_header received, data, contentLength_readBlock sendable]
  rfl

theorem readBlock_headers :
    (readBlock sent).m_headers =
      MapType.setAll (MapType.setAll (MapType.setAll [] sent.connectionHeaders) sent.m_headers)
        sent.lengthHeaders := by
  rw [readBlock]
  dsimp only
  rw [sentHeaders, MapType.setAll_append, MapType.setAll_append]

/-- The length of a body is found under its name only. -/
theorem lengthHeaders_apart {name : Bytes}
    (noLength : sent.m_body = [] ∨ folded name ≠ folded (ascii "content-length2")) :
    ∀ header ∈ sent.lengthHeaders, folded header.1 ≠ folded name := by
  intro header member same
  rcases noLength with noBody | other
  · rw [lengthHeaders, if_pos noBody] at member
    cases member
  · rw [lengthHeaders_name header member] at same
    exact other same.symm

/-- The look-up of a header that neither the connection nor the body uses. -/
theorem find_readBlock (sendable : sent.Sendable memory.uri_relaxed) {name : Bytes}
    (other : folded name ≠ folded (ascii "connection"))
    (noLength : sent.m_body = [] ∨ folded name ≠ folded (ascii "content-length2")) :
    (readBlock sent).m_headers.find name = sent.m_headers.find name := by
  have apart : ∀ header ∈ sent.connectionHeaders, folded header.1 ≠ folded name := by
    intro header member same
    rw [connectionHeaders_name header member] at same
    exact other same.symm
  rw [readBlock_headers, MapType.find_setAll_of_ne (lengthHeaders_apart noLength),
    MapType.find_setAll_of_nodup sendable.keys, MapType.find_setAll_of_ne apart]
  exact Option.or_none

theorem find_length_readBlock (body : sent.m_body ≠ []) :
    (readBlock sent).m_headers.find (ascii "content-length2") =
      some (decimal sent.m_body.length) := by
  rw [readBlock_headers, lengthHeaders, if_neg body]
  exact (MapType.find_set ..).trans (if_pos rfl)

theorem find_connection_readBlock (sendable : sent.Sendable memory.uri_relaxed) :
    (readBlock sent).m_headers.find (ascii "connection") =
      if sent.m_websocket then none
      else some (if sent.m_close then ascii "close" else ascii "keep-alive") := by
  have apart : ∀ header ∈ sent.m_headers, folded header.1 ≠ folded (ascii "connection") :=
    fun header member => sendable.ordinary header member _ (by decide)
  rw [readBlock_headers, MapType.find_setAll_of_ne (lengthHeaders_apart (.inr (by decide))),
    MapType.find_setAll_of_ne apart, connectionHeaders]
  cases sent.m_websocket with
  | true => rfl
  | false =>
      rw [if_neg Bool.false_ne_true, if_neg Bool.false_ne_true]
      exact (MapType.find_set ..).trans (if_pos rfl)

theorem init_m_close (request : HttpRequest) :
    request.init.m_close =
      if request.getHeader (ascii "connection") [] ≠ [] then
        decide (folded (request.getHeader (ascii "connection") []) ≠ folded (ascii "keep-alive"))
      else request.m_close := by
  rw [HttpRequest.init]
  split
  · rfl
  · rfl

/-- Without a connection header the flag is the one of a new request. -/
theorem init_close (sendable : sent.Sendable memory.uri_relaxed) :
    (readBlock sent).init.m_close = if sent.m_websocket then true else sent.m_close := by
  have fresh : (readBlock sent).m_close = true := rfl
  rw [init_m_close, HttpRequest.getHeader, find_connection_readBlock sendable, fresh]
  cases sent.m_websocket with
  | true => rfl
  | false =>
      cases sent.m_close with
      | true => decide
      | false => decide

theorem init_of_close (request : HttpRequest) :
    request.init = { request with m_close := request.init.m_close } := by
  rw [HttpRequest.init]
  split
  · rfl
  · rfl

/-- What the receiver is to have of a request.  The header that says whether the connection is
closed is the sender's. -/
structure Same (sent received : HttpRequest) : Prop where
  method : received.m_method = sent.m_method
  path : received.m_path = sent.m_path
  query : received.m_query = sent.m_query
  fragment : received.m_fragment = sent.m_fragment
  version : received.m_version = sent.m_version
  close : received.m_close = sent.m_close
  body : received.m_body = sent.m_body
  headers : ∀ name, folded name ≠ folded (ascii "connection") →
    received.m_headers.find name = sent.m_headers.find name

/-- A request comes back as it was sent when it has no body, unless it is a websocket's and keeps
the connection. -/
theorem request_round_trip {buff_size : Nat} {first : Bytes} {later : Socket}
    (small : buff_size < 2 ^ 31) (sendable : sent.Sendable memory.uri_relaxed)
    (arrives : (first :: later : Socket).flatten = sent.dump)
    (whole : sent.block.length ≤ first.length) (fits : first.length ≤ buff_size) :
    (∃ received rest, recvRequest memory buff_size (first :: later) = .ok (received, rest) ∧
      Same sent received) ↔
        sent.m_body = [] ∧ (sent.m_websocket = true → sent.m_close = true) := by
  rw [recvRequest_dump small sendable arrives whole fits]
  have parts := init_of_close (readBlock sent)
  constructor
  · rintro ⟨received, rest, ok, same⟩
    cases ok
    have noBody : sent.m_body = [] := by
      rw [← same.body, parts]
      rfl
    refine ⟨noBody, fun speaks => ?_⟩
    rw [← same.close, init_close sendable, if_pos speaks]
  · rintro ⟨noBody, closes⟩
    refine ⟨_, later, rfl, ?_⟩
    have close := init_close sendable
    rw [parts]
    refine ⟨rfl, rfl, rfl, rfl, rfl, ?_, noBody.symm,
      fun name other => find_readBlock sendable other (.inl noBody)⟩
    rw [close]
    split
    next speaks => exact (closes speaks).symm
    next => rfl

/-- A request with all its parts and no body. -/
def search : HttpRequest where
  m_method := .SEARCH
  m_close := false
  m_path := ascii "/a/b"
  m_query := ascii "x=1"
  m_fragment := ascii "f"
  m_headers := [(ascii "Host", ascii "exhy")]

theorem search_sendable : search.Sendable zeros.uri_relaxed where
  method := by decide
  path := by
    show accepts (Grammar.relative_part false) (ascii "/a/b")
    decide +kernel
  query := by
    show accepts (queryPart false) (ascii "x=1")
    decide +kernel
  fragment := by
    show accepts (queryPart false) (ascii "f")
    decide +kernel
  version := by decide
  keys := by decide
  fields := by
    intro header member
    cases List.mem_singleton.mp member
    exact ⟨by decide, by decide, by decide, by decide⟩
  ordinary := by decide

theorem request_round_trip_search :
    ∃ received rest, recvRequest zeros 4096 [search.dump] = .ok (received, rest) ∧
      Same search received :=
  (request_round_trip (by decide) search_sendable (List.flatten_singleton) (by decide)
    (by decide)).mpr ⟨rfl, fun _ => by contradiction⟩

/-- A request with a body. -/
def upload : HttpRequest where
  m_method := .POST
  m_path := ascii "/"
  m_body := ascii "hello"

theorem upload_sendable : upload.Sendable zeros.uri_relaxed where
  method := by decide
  path := by
    show accepts (Grammar.relative_part false) (ascii "/")
    decide +kernel
  query := by
    show accepts (queryPart false) []
    decide +kernel
  fragment := by
    show accepts (queryPart false) []
    decide +kernel
  version := by decide
  keys := by decide
  fields := fun header member => absurd member List.not_mem_nil
  ordinary := fun header member => absurd member List.not_mem_nil

/-- The body is lost: its length is not announced as such. -/
theorem upload_lost : upload.Sendable zeros.uri_relaxed ∧
    ¬∃ received rest, recvRequest zeros 4096 [upload.dump] = .ok (received, rest) ∧
      Same upload received := by
  refine ⟨upload_sendable, ?_⟩
  rintro ⟨received, rest, ok, same⟩
  rw [recvRequest_dump (by decide) upload_sendable List.flatten_singleton (by decide) (by decide)]
    at ok
  cases ok
  have body := same.body
  rw [init_of_close] at body
  cases body

end HttpSession

end Exhy.Http
