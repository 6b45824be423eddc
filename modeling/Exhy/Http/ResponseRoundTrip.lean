import Exhy.Http.Chunked
import Exhy.Http.HeaderBlock

/-!
# A response, sent and received

What `HttpConnection::recvResponse` makes of the bytes that `HttpResponse::dump` writes.
-/

namespace Exhy.Http

open Library Machine Httpclient

/-! ## What is sent -/

namespace HttpResponse

/-- The reason as it is written. -/
def sentReason (response : HttpResponse) : Bytes :=
  if response.m_reason = [] then HttpStatusToString response.m_status else response.m_reason

def statusLine (response : HttpResponse) : Bytes :=
  dumpVersion response.m_version ++ ascii " " ++ decimal (response.m_status % 2 ^ 32).toNat ++
    ascii " " ++ response.sentReason ++ ascii "\r\n"

/-- The header that says whether the connection is closed. -/
def connectionHeaders (response : HttpResponse) : List (Bytes × Bytes) :=
  if response.m_websocket then []
  else [(ascii "connection", if response.m_close then ascii "close" else ascii "keep-alive")]

/-- The header with the length of the body. -/
def lengthHeaders (response : HttpResponse) : List (Bytes × Bytes) :=
  if response.m_body = [] then []
  else [(ascii "content-length", decimal response.m_body.length)]

/-- The headers in the order in which they are written. -/
def sentHeaders (response : HttpResponse) : List (Bytes × Bytes) :=
  response.m_headers ++ response.connectionHeaders ++ response.lengthHeaders

/-- All that is written in front of the body. -/
def block (response : HttpResponse) : Bytes :=
  response.statusLine ++ response.sentHeaders.flatMap headerLine ++ ascii "\r\n"

/-- The names that a response gives to no header of its own. -/
def reserved : List Bytes :=
  [ascii "connection", ascii "content-length", ascii "transfer-encoding", ascii "content-encoding"]

/-- A header that is sent as it is. -/
structure Ordinary (header : Bytes × Bytes) : Prop where
  nonempty : header.1 ≠ []
  tokens : ∀ byte ∈ header.1, inRanges Grammar.tokenBytes byte = true
  ordinary : ∀ name ∈ reserved, folded header.1 ≠ folded name
  inLine : ∀ byte ∈ header.2, byte ≠ 0x0D ∧ byte ≠ 0x0A
  noBlank : ∀ byte ∈ header.2.head?, isSpace byte = false

/-- A response that can be sent as it is.  The keys of a map are different. -/
structure Sendable (response : HttpResponse) : Prop where
  version : response.m_version = 0x10 ∨ response.m_version = 0x11
  status : 100 ≤ response.m_status ∧ response.m_status ≤ 999
  reason : ∀ byte ∈ response.m_reason, byte ≠ 0x0D ∧ byte ≠ 0x0A
  cookies : response.m_cookies = []
  keys : (response.m_headers.map fun header => folded header.1).Nodup
  headers : ∀ header ∈ response.m_headers, Ordinary header

variable {response : HttpResponse}

theorem Sendable.dump_eq (sendable : response.Sendable) :
    response.dump = response.block ++ response.m_body := by
  have kept : response.m_headers.filter (fun i =>
      response.m_websocket || folded i.1 ≠ folded (ascii "connection")) = response.m_headers := by
    rw [List.filter_eq_self]
    intro header member
    have other := (sendable.headers header member).ordinary (ascii "connection") (by decide)
    simp [other]
  have connection : dumpConnection response.m_websocket response.m_close =
      response.connectionHeaders.flatMap headerLine := by
    rw [dumpConnection, connectionHeaders]
    split
    · rfl
    · rw [List.flatMap_singleton]
  rw [dump, dumpHeaders, kept, connection, sendable.cookies, block, statusLine, sentHeaders,
    lengthHeaders, sentReason]
  by_cases empty : response.m_body = []
  · simp [empty]
  · simp [empty, headerLine, ascii]

end HttpResponse

/-! ## The header block in the parser -/

namespace HeaderBlock

open HttpResponseParser HttpResponse

theorem inLine_of_ne : ∀ byte : UInt8, byte ≠ 0x0D ∧ byte ≠ 0x0A → inRanges inLine byte = true :=
  forall_byte (by decide +kernel)

theorem noBlank_of_isSpace : ∀ byte : UInt8, isSpace byte = false → inRanges noBlank byte = true :=
  forall_byte (by decide +kernel)

theorem token_ne_zero : ∀ byte : UInt8, inRanges Grammar.tokenBytes byte = true → byte ≠ 0 :=
  forall_byte (by decide +kernel)

theorem digit_of_decimal : ∀ byte : UInt8, (digitValue 10 byte).isSome = true →
    inRanges Http11.Grammar.digit byte = true :=
  forall_byte (by decide +kernel)

theorem letter_eq_toLower : ∀ byte : UInt8, letter byte ∈ letters → letter byte = toLower byte :=
  forall_byte (by decide +kernel)

theorem special_letters : ∀ name ∈ special, (∀ byte ∈ name, byte ∈ letters) ∧
    folded name = name.map UInt8.toNat := by
  decide

theorem special_reserved : ∀ name ∈ special, name ∈ reserved := by
  decide

theorem folded_of_tokens {name : Bytes}
    (tokens : ∀ byte ∈ name, inRanges Grammar.tokenBytes byte = true) :
    folded name = name.map fun byte => (toLower byte).toNat := by
  rw [folded, List.takeWhile_eq_self_iff.mpr]
  intro byte member
  exact decide_eq_true (token_ne_zero byte (tokens byte member))

/-- A name without a rule of its own is told apart from those that have one. -/
theorem not_special {header : Bytes × Bytes} (ordinary : Ordinary header) :
    header.1.map letter ∉ special := by
  intro isSpecial
  obtain ⟨areLetters, isFolded⟩ := special_letters _ isSpecial
  apply ordinary.ordinary _ (special_reserved _ isSpecial)
  rw [folded_of_tokens ordinary.tokens, isFolded, List.map_map]
  apply List.map_congr_left
  intro byte member
  have lower := letter_eq_toLower byte (areLetters _ (List.mem_map_of_mem member))
  rw [Function.comp, lower]

section Block

variable {buffer rest : Bytes} {place : Nat} {parser : HttpResponseParser} {response : HttpResponse}

/-- The headers of a message, line after line. -/
theorem exec_headers {headers : List (Bytes × Bytes)}
    (ordinary : ∀ header ∈ headers, Ordinary header) {start : LineStart} (opened : start ≠ .close)
    (knows : Knows response place parser)
    (here : buffer.drop place = headers.flatMap headerLine ++ rest) :
    ∃ (next : LineStart) (after : HttpResponseParser), next ≠ .close ∧
      exec (effect buffer) breaks (headers.flatMap headerLine ++ rest) place start.state parser =
        exec (effect buffer) breaks rest (place + (headers.flatMap headerLine).length) next.state
          after ∧
      Knows { response with m_headers := response.m_headers.setAll headers }
        (place + (headers.flatMap headerLine).length) after := by
  induction headers generalizing start place parser response with
  | nil => exact ⟨start, parser, opened, rfl, knows⟩
  | cons header later ih =>
      obtain ⟨name, value⟩ := header
      have first := ordinary (name, value) List.mem_cons_self
      have traced := trace_line opened first.nonempty first.tokens (not_special first)
        (fun byte member => inLine_of_ne byte (first.inLine byte member))
        fun byte member => noBlank_of_isSpace byte (first.noBlank byte member)
      rw [List.flatMap_cons, List.append_assoc] at here ⊢
      obtain ⟨middle, ran, known⟩ := exec_line (.inl rfl) traced knows first.nonempty here
      obtain ⟨next, after, still, onward, last⟩ := ih
        (fun other member => ordinary other (List.mem_cons_of_mem _ member))
        (show LineStart.header ≠ .close by decide) known (drop_behind here)
      rw [List.length_append, ← Nat.add_assoc]
      exact ⟨next, after, still, ran.trans onward, last⟩

theorem exec_connection (sent : HttpResponse) {start : LineStart} (opened : start ≠ .close)
    (knows : Knows response place parser)
    (here : buffer.drop place = sent.connectionHeaders.flatMap headerLine ++ rest) :
    ∃ (next : LineStart) (after : HttpResponseParser),
      exec (effect buffer) breaks (sent.connectionHeaders.flatMap headerLine ++ rest) place
          start.state parser =
        exec (effect buffer) breaks rest
          (place + (sent.connectionHeaders.flatMap headerLine).length) next.state after ∧
      Knows { response with m_headers := response.m_headers.setAll sent.connectionHeaders }
        (place + (sent.connectionHeaders.flatMap headerLine).length) after := by
  rw [connectionHeaders] at here ⊢
  split
  next => exact ⟨start, parser, rfl, knows⟩
  next speaks =>
    have some : ascii "connection" ≠ [] := by decide
    rw [if_neg speaks, List.flatMap_singleton] at here
    rw [List.flatMap_singleton]
    cases closes : sent.m_close with
    | true =>
        rw [closes, if_pos rfl] at here
        obtain ⟨after, ran, known⟩ := exec_line (.inl rfl) (trace_close opened) knows some here
        exact ⟨.close, after, ran, known⟩
    | false =>
        rw [closes, if_neg Bool.false_ne_true] at here
        obtain ⟨after, ran, known⟩ :=
          exec_line (.inl rfl) (trace_keep_alive opened) knows some here
        exact ⟨.header, after, ran, known⟩

theorem exec_length (sent : HttpResponse) (start : LineStart) (knows : Knows response place parser)
    (here : buffer.drop place = sent.lengthHeaders.flatMap headerLine ++ rest) :
    ∃ (next : LineStart) (after : HttpResponseParser),
      exec (effect buffer) breaks (sent.lengthHeaders.flatMap headerLine ++ rest) place
          start.state parser =
        exec (effect buffer) breaks rest (place + (sent.lengthHeaders.flatMap headerLine).length)
          next.state after ∧
      Knows { response with m_headers := response.m_headers.setAll sent.lengthHeaders }
        (place + (sent.lengthHeaders.flatMap headerLine).length) after := by
  rw [lengthHeaders] at here ⊢
  split
  next => exact ⟨start, parser, rfl, knows⟩
  next filled =>
    have some : ascii "content-length" ≠ [] := by decide
    rw [if_neg filled, List.flatMap_singleton] at here
    rw [List.flatMap_singleton]
    have traced := trace_length start (decimal_ne_nil sent.m_body.length)
      fun byte member => digit_of_decimal byte (decimal_digits member)
    obtain ⟨after, ran, known⟩ := exec_line (.inr rfl) traced knows some here
    exact ⟨.header, after, ran, known⟩

variable (buffer) in
/-- The empty line. -/
theorem exec_end (start : LineStart) (knows : Knows response place parser) (rest : Bytes) :
    ∃ after, exec (effect buffer) breaks (ascii "\r\n" ++ rest) place start.state parser =
        some (after, doneState, place + 2) ∧ Knows response (place + 1) after := by
  have flushed := knows.flush start
  have inside := flushed.inside.mono (Nat.le_add_right place 1)
  have first : perform (effect buffer) breaks place start.pending parser =
      some (start.flush parser, false) := by
    rw [← List.append_nil start.pending, perform_pending]
    rfl
  refine ⟨(start.flush parser).registers ({ · with body_start := place + 1 + 1 }), ?_, ?_⟩
  · show exec (effect buffer) breaks (0x0D :: 0x0A :: rest) place start.state parser = _
    rw [exec_move (empty_line start) rfl first, exec_last end_of_block rfl rfl]
  · exact ⟨flushed.response, flushed.error, flushed.chunked, inside.nread, inside.mark,
      inside.field_start, inside.field_pos, inside.field_len⟩

/-! ### The status line -/

theorem version_spec {version : UInt8} (known : version = 0x10 ∨ version = 0x11) (more : Bytes) :
    trace [Grammar.main] (dumpVersion version ++ ascii " ") =
        some ([.mark] :: List.replicate 6 [] ++ [[], [.http_version]], statusState) ∧
      on_response_version {} (dumpVersion version ++ more) 8 =
        { m_data := { m_version := version } } ∧
      (dumpVersion version).length = 8 := by
  have old : dumpVersion 0x10 ++ ascii " " = ascii "HTTP/1." ++ ascii "0 " := by decide
  have new : dumpVersion 0x11 ++ ascii " " = ascii "HTTP/1." ++ ascii "1 " := by decide
  rcases known with rfl | rfl
  · rw [old]
    exact ⟨trace_append statusMoves.protocol statusMoves.version_digit.1, rfl, by decide⟩
  · rw [new]
    exact ⟨trace_append statusMoves.protocol statusMoves.version_digit.2, rfl, by decide⟩

theorem status_spec {status : Int} (known : 100 ≤ status ∧ status ≤ 999) (more : Bytes) :
    toInt32 (strtol 10 (decimal (status % 2 ^ 32).toNat ++ 0x20 :: more)) = status := by
  have number : ((status % 2 ^ 32).toNat : Int) = status := by omega
  have small : (status % 2 ^ 32).toNat < 2 ^ 31 := by omega
  rw [strtol_digits (decimal_ne_nil _) (by omega) (fun _ => decimal_digits) (by decide) (by decide)
    (by decide) more, readDigits_decimal, toInt32_of_small small, number]
  rw [readDigits_decimal]
  omega

/-- The table has a text for every status, and none ends its line. -/
theorem HttpStatusToString_spec (status : Int) :
    HttpStatusToString status ≠ [] ∧
      ∀ byte ∈ HttpStatusToString status, byte ≠ 0x0D ∧ byte ≠ 0x0A := by
  have all : ∀ entry ∈ HTTP_STATUS_MAP, entry.2 ≠ [] ∧
      ∀ byte ∈ entry.2, byte ≠ 0x0D ∧ byte ≠ 0x0A := by
    decide +kernel
  rw [HttpStatusToString]
  split
  next entry found => exact all entry (List.mem_of_find?_eq_some found)
  next => decide

theorem sentReason_spec {sent : HttpResponse} (sendable : sent.Sendable) :
    sent.sentReason ≠ [] ∧ ∀ byte ∈ sent.sentReason, inRanges inLine byte = true := by
  have table := HttpStatusToString_spec sent.m_status
  rw [sentReason]
  split
  next => exact ⟨table.1, fun byte member => inLine_of_ne byte (table.2 byte member)⟩
  next own => exact ⟨own, fun byte member => inLine_of_ne byte (sendable.reason byte member)⟩

theorem exec_status {sent : HttpResponse} (sendable : sent.Sendable)
    (here : buffer = sent.statusLine ++ rest) :
    ∃ after, exec (effect buffer) breaks (sent.statusLine ++ rest) 0 [Grammar.main] {} =
        exec (effect buffer) breaks rest sent.statusLine.length blockState after ∧
      Knows { m_version := sent.m_version, m_status := sent.m_status, m_reason := sent.sentReason }
        sent.statusLine.length after := by
  obtain ⟨filled, inside⟩ := sentReason_spec sendable
  generalize reasonIs : sent.sentReason = reason at filled inside
  generalize digitsAre : decimal (sent.m_status % 2 ^ 32).toNat = digits
  have someDigits : digits ≠ [] := digitsAre ▸ decimal_ne_nil _
  have areDigits : ∀ byte ∈ digits, inRanges Http11.Grammar.digit byte = true :=
    fun byte member => digit_of_decimal byte (decimal_digits (digitsAre ▸ member))
  have line : sent.statusLine ++ rest = dumpVersion sent.m_version ++ ascii " " ++
      (digits ++ 0x20 :: (reason ++ (ascii "\r\n" ++ rest))) := by
    rw [statusLine, reasonIs, digitsAre]
    simp [show ascii " " = [0x20] from rfl]
  obtain ⟨traced, version, eight⟩ := version_spec sendable.version
    (ascii " " ++ (digits ++ 0x20 :: (reason ++ (ascii "\r\n" ++ rest))))
  have whole := here.trans line
  have behindVersion : buffer.drop 9 = digits ++ 0x20 :: (reason ++ (ascii "\r\n" ++ rest)) := by
    rw [whole]
    exact List.drop_left' (by rw [List.length_append, eight]; rfl)
  have behindStatus : buffer.drop (9 + digits.length + 1) = reason ++ (ascii "\r\n" ++ rest) := by
    rw [← List.drop_drop, drop_behind behindVersion]
    rfl
  have length : sent.statusLine.length = 9 + digits.length + 1 + reason.length + 2 := by
    rw [statusLine, reasonIs, digitsAre]
    simp only [List.length_append, eight]
    rfl
  -- the parser behind the version
  have known : on_response_version {} buffer 8 = { m_data := { m_version := sent.m_version } } := by
    rw [whole, List.append_assoc]
    exact version
  have first : performAll (effect buffer) breaks 0
      ([.mark] :: List.replicate 6 [] ++ [[], [.http_version]]) {} =
        some { m_data := { m_version := sent.m_version } } :=
    (show _ = some (on_response_version {} buffer 8) from rfl).trans (congrArg some known)
  -- behind the status
  have status : effect buffer (9 + digits.length) .status_code
      { m_data := { m_version := sent.m_version }, mParser := { mark := 9 } } =
        some { m_data := { m_version := sent.m_version, m_status := sent.m_status }
               mParser := { mark := 9 } } := by
    have read := status_spec sendable.status (reason ++ (ascii "\r\n" ++ rest))
    rw [digitsAre, ← behindVersion] at read
    simp only [effect, on_response_status, read]
  -- behind the reason
  have told : effect buffer (9 + digits.length + 1 + reason.length) .reason_phrase
      { m_data := { m_version := sent.m_version, m_status := sent.m_status }
        mParser := { mark := 9 + digits.length + 1 } } =
        some { m_data := { m_version := sent.m_version, m_status := sent.m_status, m_reason := reason }
               mParser := { mark := 9 + digits.length + 1 } } := by
    have size : ((9 + digits.length + 1 + reason.length : Nat) : Int) -
        ((9 + digits.length + 1 : Nat) : Int) = reason.length := by omega
    simp only [effect, on_response_reason, behindStatus, size, text_prefix, Option.map_some]
  refine ⟨{ m_data := { m_version := sent.m_version, m_status := sent.m_status, m_reason := reason }
            mParser := { mark := 9 + digits.length + 1 } }, ?_, ?_⟩
  · have nine : 0 + (dumpVersion sent.m_version ++ ascii " ").length = 9 := by
      rw [List.length_append, eight]
      rfl
    calc
      _ = exec (effect buffer) breaks (digits ++ 0x20 :: (reason ++ (ascii "\r\n" ++ rest))) 9
            statusState { m_data := { m_version := sent.m_version } } := by
        rw [line, exec_trace traced first, nine]
      _ = exec (effect buffer) breaks (0x20 :: (reason ++ (ascii "\r\n" ++ rest)))
            (9 + digits.length) digitState
            { m_data := { m_version := sent.m_version }, mParser := { mark := 9 } } :=
        exec_word statusMoves.first_of_status statusMoves.more_of_status someDigits areDigits rfl rfl _
      _ = exec (effect buffer) breaks (reason ++ (ascii "\r\n" ++ rest)) (9 + digits.length + 1)
            reasonState
            { m_data := { m_version := sent.m_version, m_status := sent.m_status }
              mParser := { mark := 9 } } :=
        exec_move statusMoves.behind_status rfl (perform_cons status rfl) _
      _ = exec (effect buffer) breaks (ascii "\r\n" ++ rest)
            (9 + digits.length + 1 + reason.length) textState
            { m_data := { m_version := sent.m_version, m_status := sent.m_status }
              mParser := { mark := 9 + digits.length + 1 } } :=
        exec_word statusMoves.first_of_reason statusMoves.more_of_reason filled inside rfl rfl _
      _ = exec (effect buffer) breaks rest (9 + digits.length + 1 + reason.length + 2) blockState
            { m_data :=
                { m_version := sent.m_version, m_status := sent.m_status, m_reason := reason }
              mParser := { mark := 9 + digits.length + 1 } } :=
        exec_trace statusMoves.behind_reason (performAll_cons (perform_cons told rfl)) rest
      _ = _ := by rw [length]
  · refine ⟨rfl, rfl, rfl, rfl, ?_, Nat.zero_le _, Int.le_refl 0, Int.natCast_nonneg _⟩
    rw [length]
    show 9 + digits.length + 1 ≤ _
    omega

/-- The whole header block, and what follows it. -/
theorem execute_block {sent : HttpResponse} (sendable : sent.Sendable) (more : Bytes) :
    ∃ after, HttpResponseParser.execute {} (sent.block ++ more) false = some (after, more) ∧
      after.m_data =
        { m_version := sent.m_version, m_status := sent.m_status, m_reason := sent.sentReason
          m_headers := MapType.setAll [] sent.sentHeaders } ∧
      after.m_error = 0 ∧ after.mParser.cs = doneState ∧ after.mParser.chunked = false := by
  generalize bufferIs : sent.block ++ more = buffer
  have parts : buffer = sent.statusLine ++ (sent.m_headers.flatMap headerLine ++
      (sent.connectionHeaders.flatMap headerLine ++ (sent.lengthHeaders.flatMap headerLine ++
        (ascii "\r\n" ++ more)))) := by
    simp only [← bufferIs, block, sentHeaders, List.flatMap_append, List.append_assoc]
  obtain ⟨parser, ranLine, knowsLine⟩ := exec_status sendable parts
  have behindLine : buffer.drop sent.statusLine.length = sent.m_headers.flatMap headerLine ++
      (sent.connectionHeaders.flatMap headerLine ++ (sent.lengthHeaders.flatMap headerLine ++
        (ascii "\r\n" ++ more))) := by
    rw [parts, List.drop_left]
  obtain ⟨start, afterHeaders, opened, ranHeaders, knowsHeaders⟩ :=
    exec_headers sendable.headers (show LineStart.status ≠ .close by decide) knowsLine behindLine
  have behindHeaders := drop_behind behindLine
  obtain ⟨second, afterConnection, ranConnection, knowsConnection⟩ :=
    exec_connection sent opened knowsHeaders behindHeaders
  obtain ⟨third, afterLength, ranLength, knowsLength⟩ :=
    exec_length sent second knowsConnection (drop_behind behindHeaders)
  obtain ⟨last, ranEnd, knowsEnd⟩ := exec_end buffer third knowsLength more
  have ran := ranLine.trans (ranHeaders.trans (ranConnection.trans (ranLength.trans ranEnd)))
  rw [← parts] at ran
  have length : sent.block.length = sent.statusLine.length +
      (sent.m_headers.flatMap headerLine).length +
      (sent.connectionHeaders.flatMap headerLine).length +
      (sent.lengthHeaders.flatMap headerLine).length + 1 + 1 := by
    simp only [block, sentHeaders, List.flatMap_append, List.length_append]
    rw [show (ascii "\r\n").length = 2 from rfl]
    omega
  have within : sent.statusLine.length + (sent.m_headers.flatMap headerLine).length +
      (sent.connectionHeaders.flatMap headerLine).length +
      (sent.lengthHeaders.flatMap headerLine).length + 1 < buffer.length := by
    rw [← bufferIs, List.length_append]
    omega
  have fresh : false = true ∨ ({} : HttpResponseParser).mParser = {} := .inr rfl
  have executed := execute_of_exec fresh ran knowsEnd.inside within
  have left : buffer.drop sent.block.length = more := by
    rw [← bufferIs, List.drop_left]
  rw [← length, left] at executed
  refine ⟨_, executed, ?_, knowsEnd.error, rfl, knowsEnd.chunked⟩
  show last.m_data = _
  rw [knowsEnd.response, sentHeaders, MapType.setAll_append, MapType.setAll_append]

theorem doneState_eq : doneState = httpclient_parser_first_final := by
  decide +kernel

end Block

end HeaderBlock

/-! ## The round trip -/

namespace HttpConnection

open HttpResponse HeaderBlock

variable {sent : HttpResponse}

theorem connectionHeaders_name : ∀ header ∈ sent.connectionHeaders, header.1 = ascii "connection" := by
  intro header member
  rw [connectionHeaders] at member
  split at member
  next => cases member
  next => rw [List.mem_singleton.mp member]

theorem lengthHeaders_name : ∀ header ∈ sent.lengthHeaders, header.1 = ascii "content-length" := by
  intro header member
  rw [lengthHeaders] at member
  split at member
  next => cases member
  next => rw [List.mem_singleton.mp member]

/-- Keys that are told apart. -/
theorem sentHeaders_nodup (sendable : sent.Sendable) :
    (sent.sentHeaders.map fun header => folded header.1).Nodup := by
  have apart : ∀ header ∈ sent.m_headers, ∀ name ∈ reserved, folded header.1 ≠ folded name :=
    fun header member => (sendable.headers header member).ordinary
  have single : (sent.connectionHeaders.map fun header => folded header.1).Nodup ∧
      (sent.lengthHeaders.map fun header => folded header.1).Nodup := by
    constructor
    · rw [connectionHeaders]
      split
      · exact List.nodup_nil
      · exact List.nodup_singleton _
    · rw [lengthHeaders]
      split
      · exact List.nodup_nil
      · exact List.nodup_singleton _
  rw [sentHeaders, List.map_append, List.map_append, List.nodup_append, List.nodup_append]
  refine ⟨⟨sendable.keys, single.1, ?_⟩, single.2, ?_⟩
  · intro key isKey other isOther
    obtain ⟨header, member, rfl⟩ := List.mem_map.mp isKey
    obtain ⟨second, there, rfl⟩ := List.mem_map.mp isOther
    rw [connectionHeaders_name second there]
    exact apart header member _ (by decide)
  · intro key isKey other isOther
    obtain ⟨second, there, rfl⟩ := List.mem_map.mp isOther
    rw [lengthHeaders_name second there]
    rcases List.mem_append.mp isKey with isKey | isKey
    · obtain ⟨header, member, rfl⟩ := List.mem_map.mp isKey
      exact apart header member _ (by decide)
    · obtain ⟨header, member, rfl⟩ := List.mem_map.mp isKey
      rw [connectionHeaders_name header member]
      decide

theorem toInt64_toUInt64 {number : Nat} (small : number < 2 ^ 63) :
    toInt64 number.toUInt64 = number := by
  have signed := BitVec.toInt_eq_toNat_bmod (BitVec.ofNat 64 number)
  rw [BitVec.toNat_ofNat, Nat.mod_eq_of_lt (by omega), Int.bmod_eq_of_le (by omega) (by omega)]
    at signed
  exact signed

theorem getContentLength_sent (sendable : sent.Sendable) (held : sent.m_body.length < 2 ^ 63)
    {parser : HttpResponseParser}
    (headers : parser.m_data.m_headers = MapType.setAll [] sent.sentHeaders) :
    toInt64 parser.getContentLength = sent.m_body.length := by
  rw [HttpResponseParser.getContentLength, HttpResponse.getHeaderAsUInt64, headers]
  by_cases empty : sent.m_body = []
  · have unknown : ∀ header ∈ sent.sentHeaders, folded header.1 ≠ folded (ascii "content-length") := by
      intro header member
      simp only [sentHeaders, lengthHeaders, empty, if_true, List.append_nil, List.mem_append] at member
      rcases member with own | connection
      · exact (sendable.headers header own).ordinary _ (by decide)
      · rw [connectionHeaders_name header connection]
        decide
    rw [MapType.find_setAll_of_ne unknown, empty]
    rfl
  · have member : (ascii "content-length", decimal sent.m_body.length) ∈ sent.sentHeaders := by
      simp [sentHeaders, lengthHeaders, empty]
    have found := MapType.find_setAll (sentHeaders_nodup sendable) member []
    dsimp only at found
    rw [found]
    dsimp only
    rw [lexicalCastUInt64_decimal (by omega), Option.getD_some, toInt64_toUInt64 held]

/-- No header of the block is a content encoding. -/
theorem not_encoded (sendable : sent.Sendable) :
    ∀ header ∈ sent.sentHeaders, folded header.1 ≠ folded (ascii "content-encoding") := by
  intro header member
  rw [sentHeaders, List.mem_append, List.mem_append] at member
  rcases member with (own | connection) | length
  · exact (sendable.headers header own).ordinary _ (by decide)
  · rw [connectionHeaders_name header connection]
    decide
  · rw [lengthHeaders_name header length]
    decide

/-- A body that is in the buffer. -/
theorem recvBody_buffered (body : Bytes) (socket : Socket) :
    recvBody body.length body socket = .ok (body, socket) := by
  rw [recvBody]
  by_cases empty : body = []
  · rw [empty]
    rfl
  · have filled := List.length_pos_of_ne_nil empty
    have inBuffer : (if (body.length : Int) ≥ body.length then body
        else body.take (body.length : Int).toNat) = body := if_pos (Int.le_refl _)
    rw [if_pos (by omega), inBuffer, if_neg (by omega)]

/-- A body of which a part is still to be read. -/
theorem recvBody_reads {body data : Bytes} {socket : Socket} (full : socket.Full)
    (parts : data ++ socket.flatten = body) (behind : socket.flatten ≠ []) :
    ∃ rest, recvBody body.length data socket =
      if toInt32 socket.flatten.length ≤ 0 then .error .closed else .ok (body, rest) := by
  have length : body.length = data.length + socket.flatten.length := by
    rw [← parts, List.length_append]
  have left : (body.length : Int) - data.length = socket.flatten.length := by omega
  have more := List.length_pos_of_ne_nil behind
  have inBuffer : (if (body.length : Int) ≥ data.length then data
      else data.take (body.length : Int).toNat) = data := if_pos (by omega)
  have read := readFixSize_spec full (Nat.le_refl socket.flatten.length)
  rw [if_pos (Nat.le_refl _), List.take_length] at read
  obtain ⟨rest, received, -, -⟩ := read
  refine ⟨rest, ?_⟩
  rw [recvBody, if_pos (by omega), inBuffer, left]
  dsimp only
  rw [if_pos (by omega), Int.toNat_natCast, received]
  dsimp only
  rw [parts]

/-- What the receiver is to have of a response. -/
structure Matches (sent received : HttpResponse) : Prop where
  status : received.m_status = sent.m_status
  reason : received.m_reason = sent.sentReason
  version : received.m_version = sent.m_version
  body : received.m_body = sent.m_body
  headers : ∀ header ∈ sent.m_headers, received.m_headers.find header.1 = some header.2

theorem recvResponse_sent (zlib : ZlibStream) {buff_size : Nat} {first : Bytes} {later : Socket}
    (small : buff_size < 2 ^ 31) (sendable : sent.Sendable) (held : sent.m_body.length < 2 ^ 63)
    (arrives : ((first :: later : Socket)).flatten = sent.dump)
    (whole : sent.block.length ≤ first.length) (fits : first.length ≤ buff_size)
    (full : Socket.Full (first :: later)) :
    if later.flatten = [] ∨ 0 < toInt32 later.flatten.length then
      ∃ received rest, recvResponse zlib buff_size (first :: later) = .ok (received, rest) ∧
        Matches sent received
    else recvResponse zlib buff_size (first :: later) = .error .closed := by
  rw [sendable.dump_eq, List.flatten_cons] at arrives
  obtain ⟨more, rfl⟩ : ∃ more, first = sent.block ++ more := by
    have isPrefix : sent.block <+: first :=
      List.prefix_of_prefix_length_le (List.prefix_append _ _) (arrives ▸ List.prefix_append _ _) whole
    obtain ⟨more, parts⟩ := isPrefix
    exact ⟨more, parts.symm⟩
  rw [List.append_assoc, List.append_cancel_left_eq] at arrives
  obtain ⟨parser, executed, response, noError, state, notChunked⟩ := execute_block sendable more
  have block : sent.block ≠ [] := by
    rw [HttpResponse.block]
    exact List.append_ne_nil_of_right_ne_nil _ (by decide)
  obtain ⟨isOk, isFinished⟩ :=
    HttpResponseParser.finished_of_first_final noError (state.trans HeaderBlock.doneState_eq)
  have received := recvHeader_eq ((sent.block ++ more) :: later).flatten.length later small fits
    block executed isOk isFinished
  have size := getContentLength_sent sendable held (congrArg HttpResponse.m_headers response)
  have identity : parser.m_data.getHeader (ascii "content-encoding") [] = [] := by
    rw [HttpResponse.getHeader, response]
    dsimp only
    rw [MapType.find_setAll_of_ne (not_encoded sendable)]
    rfl
  have fresh : parser.m_data.m_body = [] := by rw [response]
  -- what the response is with its body
  have matched : Matches sent (setBody zlib parser.m_data sent.m_body) := by
    rw [setBody_of_identity zlib _ identity fresh, response]
    refine ⟨rfl, rfl, rfl, rfl, fun header member => ?_⟩
    apply MapType.find_setAll (sentHeaders_nodup sendable)
    rw [sentHeaders, List.append_assoc]
    exact List.mem_append_left _ member
  rw [recvResponse, received]
  dsimp only
  rw [notChunked, if_neg Bool.false_ne_true, size]
  by_cases behind : later.flatten = []
  · have buffered : more = sent.m_body := by rw [← arrives, behind, List.append_nil]
    rw [if_pos (.inl behind), buffered, recvBody_buffered]
    exact ⟨_, later, rfl, matched⟩
  · obtain ⟨rest, reads⟩ := recvBody_reads full.tail arrives behind
    rw [reads]
    split
    next counts =>
      rw [if_neg (not_le.mpr (counts.resolve_left behind))]
      exact ⟨_, rest, rfl, matched⟩
    next cut => rw [if_pos (not_lt.mp fun counts => cut (.inr counts))]

/-- A response comes back as it was sent, unless the part of its body behind the first read has a
length that `readFixSize` does not return. -/
theorem response_round_trip (zlib : ZlibStream) {buff_size : Nat} {first : Bytes} {later : Socket}
    (small : buff_size < 2 ^ 31) (sendable : sent.Sendable) (held : sent.m_body.length < 2 ^ 63)
    (arrives : (first :: later : Socket).flatten = sent.dump)
    (whole : sent.block.length ≤ first.length) (fits : first.length ≤ buff_size)
    (full : Socket.Full (first :: later)) :
    (∃ received rest, recvResponse zlib buff_size (first :: later) = .ok (received, rest) ∧
      Matches sent received) ↔ later.flatten = [] ∨ 0 < toInt32 later.flatten.length := by
  have result := recvResponse_sent zlib small sendable held arrives whole fits full
  split at result
  next counts => exact ⟨fun _ => counts, fun _ => result⟩
  next cut =>
    constructor
    · rintro ⟨received, rest, ok, -⟩
      rw [result] at ok
      cases ok
    · exact fun counts => absurd counts cut

/-- A response with a header of its own and a body. -/
def greeting : HttpResponse where
  m_headers := [(ascii "Server", ascii "exhy/1.0.0")]
  m_body := ascii "hello"

theorem greeting_sendable : greeting.Sendable where
  version := by decide
  status := by decide
  reason := by decide
  cookies := rfl
  keys := by decide
  headers := by
    intro header member
    cases List.mem_singleton.mp member
    exact ⟨by decide, by decide, by decide, by decide, by decide⟩

/-- The body comes in three reads, the first with the header block. -/
theorem response_round_trip_greeting :
    ∃ received rest, recvResponse ⟨id, id⟩ 4096
        [greeting.block ++ ascii "h", ascii "el", ascii "lo"] = .ok (received, rest) ∧
      Matches greeting received :=
  (response_round_trip ⟨id, id⟩ (by decide) greeting_sendable (by decide) (by decide) (by decide)
    (by decide) (by decide)).mpr (.inr (by decide))

/-- A response whose body is the `size` bytes. -/
def filledWith (size : Nat) : HttpResponse where
  m_reason := ascii "OK"
  m_body := List.replicate size 0x61

theorem filledWith_sendable (size : Nat) : (filledWith size).Sendable where
  version := by
    show (0x11 : UInt8) = 0x10 ∨ (0x11 : UInt8) = 0x11
    decide
  status := by
    show 100 ≤ (200 : Int) ∧ (200 : Int) ≤ 999
    decide
  reason := by
    show ∀ byte ∈ ascii "OK", byte ≠ 0x0D ∧ byte ≠ 0x0A
    decide
  cookies := rfl
  keys := List.nodup_nil
  headers := fun header member => absurd member List.not_mem_nil

/-- The body in two halves, behind the header block. -/
def halves (size : Nat) : Socket := [List.replicate size 0x61, List.replicate size 0x61]

theorem flatten_halves (size : Nat) : (halves size).flatten = List.replicate (size + size) 0x61 := by
  rw [halves, List.flatten_cons, List.flatten_singleton, List.replicate_append_replicate]

theorem filledWith_lost {size : Nat} (some : 0 < size) (held : size + size < 2 ^ 63)
    (cut : toInt32 ((size + size : Nat) : Int) ≤ 0)
    (short : (filledWith (size + size)).block.length ≤ 4096) :
    ((filledWith (size + size)).block :: halves size).flatten = (filledWith (size + size)).dump ∧
      recvResponse ⟨id, id⟩ 4096 ((filledWith (size + size)).block :: halves size) =
        .error .closed := by
  have arrives : ((filledWith (size + size)).block :: halves size).flatten =
      (filledWith (size + size)).dump := by
    rw [(filledWith_sendable _).dump_eq, List.flatten_cons, flatten_halves]
    rfl
  have full : Socket.Full ((filledWith (size + size)).block :: halves size) := by
    intro packet member
    rcases List.mem_cons.mp member with rfl | member
    · rw [HttpResponse.block]
      exact List.append_ne_nil_of_right_ne_nil _ (by decide)
    · have filled : List.replicate size (0x61 : UInt8) ≠ [] :=
        List.ne_nil_of_length_pos (by rwa [List.length_replicate])
      simp only [halves, List.mem_cons, List.not_mem_nil, or_false, or_self] at member
      rw [member]
      exact filled
  have length : (filledWith (size + size)).m_body.length = size + size := List.length_replicate
  have result := recvResponse_sent ⟨id, id⟩ (by decide) (filledWith_sendable _)
    (by rwa [length]) arrives (Nat.le_refl _) short full
  rw [if_neg] at result
  · exact ⟨arrives, result⟩
  · rw [flatten_halves, List.length_replicate, not_or, not_lt]
    refine ⟨List.ne_nil_of_length_pos ?_, cut⟩
    rw [List.length_replicate]
    omega

theorem filledWith_block {size : Nat} (some : 0 < size) :
    (filledWith size).block = ascii "HTTP/1.1 200 OK\r\nconnection: close\r\ncontent-length: " ++
      decimal size ++ ascii "\r\n\r\n" := by
  have length : (filledWith size).m_body.length = size := List.length_replicate
  have filled : (filledWith size).m_body ≠ [] := List.ne_nil_of_length_pos (by rwa [length])
  have line : (filledWith size).statusLine = ascii "HTTP/1.1 200 OK\r\n" := by
    have version : (filledWith size).m_version = 0x11 := rfl
    have status : (filledWith size).m_status = 200 := rfl
    have reason : (filledWith size).sentReason = ascii "OK" :=
      if_neg (show ascii "OK" ≠ [] by decide)
    rw [statusLine, version, status, reason]
    decide
  have connection : (filledWith size).connectionHeaders =
      [(ascii "connection", ascii "close")] := rfl
  rw [HttpResponse.block, sentHeaders, lengthHeaders, if_neg filled, length, line, connection]
  simp [filledWith, headerLine, ascii]

/-- All of a body of 2^31 bytes arrives, and the response is dropped. -/
theorem huge_lost :
    ((filledWith (2 ^ 30 + 2 ^ 30)).block :: halves (2 ^ 30)).flatten =
        (filledWith (2 ^ 30 + 2 ^ 30)).dump ∧
      recvResponse ⟨id, id⟩ 4096 ((filledWith (2 ^ 30 + 2 ^ 30)).block :: halves (2 ^ 30)) =
        .error .closed := by
  apply filledWith_lost
  · decide
  · decide
  · decide
  · rw [filledWith_block (by decide)]
    decide

end HttpConnection

end Exhy.Http
