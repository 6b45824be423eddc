import Exhy.Http.Chunked

/-!
# The copies of the chunked branch

`recvResponse` takes the size of a chunk from `strtol` into an `int` and computes with it
which bytes of its buffer belong to the chunk.  The size is the one that the line spells, and
the copies stay in the buffer, as long as the size and the line end behind the chunk fit into
an `int`.
-/

namespace Exhy.Http

open Library Library.Machine Httpclient

/-- The number that the hexadecimal digits in front of a text spell. -/
def hexSize (text : Bytes) : Option Nat :=
  let digits := text.takeWhile fun byte => (digitValue 16 byte).isSome
  if digits = [] then none else some (readDigits 16 0 digits)

/-- The digits of a text and what is behind them. -/
theorem hexSize_spec (text : Bytes) :
    ∃ digits rest, text = digits ++ rest ∧
      (∀ byte ∈ digits, (digitValue 16 byte).isSome = true) ∧
      (∀ stop ∈ rest.head?, digitValue 16 stop = none) ∧
      hexSize text = if digits = [] then none else some (readDigits 16 0 digits) := by
  refine ⟨_, text.dropWhile fun byte => (digitValue 16 byte).isSome,
    (List.takeWhile_append_dropWhile ..).symm, ?_, ?_, rfl⟩
  · intro byte member
    have isDigit := List.mem_takeWhile_imp member
    exact isDigit
  · intro stop isStop
    have noDigit := List.head?_dropWhile_not (fun byte => (digitValue 16 byte).isSome) text
    rw [isStop] at noDigit
    simpa using noDigit

/-- A number that ends in the text is not changed by what comes behind. -/
theorem hexSize_append {text : Bytes} (more : Bytes) {digits rest : Bytes} {stop : UInt8}
    (parts : text = digits ++ stop :: rest)
    (areDigits : ∀ byte ∈ digits, (digitValue 16 byte).isSome = true)
    (noDigit : digitValue 16 stop = none) : hexSize (text ++ more) = hexSize text := by
  have ends : ∀ tail, (digits ++ stop :: tail).takeWhile (fun byte => (digitValue 16 byte).isSome) =
      digits := by
    intro tail
    rw [List.takeWhile_append_of_pos areDigits, List.takeWhile_cons_of_neg (by simp [noDigit]),
      List.append_nil]
  rw [parts, List.append_assoc, List.cons_append]
  simp only [hexSize, ends]

namespace ChunkLine

open HttpResponseParser

/-! ## The size that the parser keeps -/

/-- On the byte behind the digits the parser takes the size, and it takes none any more. -/
def takesSize (code : UInt8) : Bool :=
  match step Pending.size.state code with
  | none => true
  | some (next, actions) =>
      (code ≠ 0x58 && code ≠ 0x78) && actions.head? = some .chunk_size &&
        !actions.tail.contains .chunk_size && !actions.contains .write_content_len &&
        next.all fun machine =>
          machine.performedOn [] .chunk_size false && machine.performedOn [] .write_content_len false

theorem behind_digits :
    (List.range 256).all (fun code =>
      inRanges Http11.Grammar.xdigit code.toUInt8 || takesSize code.toUInt8) = true := by
  decide +kernel

theorem size_unfinished : Pending.size.state ≠ httpclient_parser_first_final := by
  decide +kernel

theorem effect_content_len {buffer : Bytes} {place : Nat} {action : Action}
    {parser after : HttpResponseParser} (noSize : action ≠ .chunk_size)
    (noLength : action ≠ .write_content_len)
    (done : effect buffer place action parser = some after) :
    after.mParser.content_len = parser.mParser.content_len := by
  cases action with
  | chunk_size => exact absurd rfl noSize
  | write_content_len => exact absurd rfl noLength
  | write_value =>
      simp only [effect, on_response_http_field] at done
      split at done
      next =>
        cases done
        rfl
      next =>
        split at done
        next =>
          cases done
          rfl
        next => cases done
  | reason_phrase =>
      obtain ⟨reason, -, rfl⟩ := Option.map_eq_some_iff.mp done
      rfl
  | http_version =>
      simp only [effect, Option.some.injEq, on_response_version] at done
      rw [← done]
      split
      · rfl
      · split <;> rfl
  | mark | start_field | write_field | start_value | write_connection_close | status_code
  | trans_chunked | done =>
      cases done
      rfl

/-- The machine takes no size any more. -/
def Sized (cs : List (Machine Action)) : Prop :=
  PerformsOn [] .chunk_size cs ∧ PerformsOn [] .write_content_len cs

theorem Sized.step {cs next : List (Machine Action)} {code : UInt8} {actions : List Action}
    (sized : Sized cs) (stepped : Machine.step cs code = some (next, actions)) :
    Sized next ∧ .chunk_size ∉ actions ∧ .write_content_len ∉ actions := by
  obtain ⟨sizeKept, noSize⟩ := step_performsOn sized.1 stepped
  obtain ⟨lengthKept, noLength⟩ := step_performsOn sized.2 stepped
  refine ⟨⟨sizeKept, lengthKept⟩, fun isSize => ?_, fun isLength => ?_⟩
  · cases noSize isSize
  · cases noLength isLength

/-- The run behind the digits keeps the size. -/
theorem exec_content_len {buffer text : Bytes} {place stop : Nat} {cs last : List (Machine Action)}
    {parser after : HttpResponseParser} (sized : Sized cs)
    (ran : exec (effect buffer) breaks text place cs parser = some (after, last, stop)) :
    after.mParser.content_len = parser.mParser.content_len := by
  apply exec_keeps_from Sized (fun other => other.mParser.content_len = parser.mParser.content_len)
    _ ran sized rfl
  intro cs code next actions isSized stepped
  obtain ⟨kept, noSize, noLength⟩ := isSized.step stepped
  refine ⟨kept, fun place action member state after done same => ?_⟩
  rw [effect_content_len (fun isSize => noSize (isSize ▸ member))
    (fun isLength => noLength (isLength ▸ member)) done, same]

/-- The byte behind the digits. -/
theorem step_behind_digits {code : UInt8} (noDigit : digitValue 16 code = none)
    {next : List (Machine Action)} {actions : List Action}
    (stepped : Machine.step Pending.size.state code = some (next, actions)) :
    code ≠ 0x58 ∧ code ≠ 0x78 ∧ Sized next ∧
      ∃ later, actions = .chunk_size :: later ∧ .chunk_size ∉ later ∧ .write_content_len ∉ later := by
  have other : inRanges Http11.Grammar.xdigit code = false := by
    rw [← Bool.not_eq_true]
    intro isDigit
    have digit := digitValue_of_xdigit isDigit
    rw [noDigit] at digit
    cases digit
  have takes : takesSize code = true := by
    have here := List.all_eq_true.mp behind_digits code.toNat
      (List.mem_range.mpr (UInt8.toNat_lt code))
    simpa [other] using here
  rw [takesSize, stepped] at takes
  simp only [Bool.and_eq_true, decide_eq_true_eq, Bool.not_eq_true', List.all_eq_true] at takes
  obtain ⟨⟨⟨⟨⟨upper, lower⟩, first⟩, noSize⟩, noLength⟩, machines⟩ := takes
  refine ⟨upper, lower, ⟨?_, ?_⟩, ?_⟩
  · exact fun machine member => (machines machine member).1
  · exact fun machine member => (machines machine member).2
  · cases actions with
    | nil => cases first
    | cons action later =>
        cases Option.some.inj first
        refine ⟨later, rfl, ?_, ?_⟩
        · simpa using noSize
        · simp only [List.contains_cons, Bool.or_eq_false_iff] at noLength
          simpa using noLength.2

theorem xdigit_of_digitValue {byte : UInt8} (isDigit : (digitValue 16 byte).isSome = true) :
    inRanges Http11.Grammar.xdigit byte = true := by
  have all : ∀ code < 256, (digitValue 16 code.toUInt8).isSome = true →
      inRanges Http11.Grammar.xdigit code.toUInt8 = true := by
    decide +kernel
  simpa using all byte.toNat (UInt8.toNat_lt byte) (by simpa using isDigit)

/-- What a call on the start of a line has run. -/
theorem exec_of_execute {parser next : HttpResponseParser} {buffer left : Bytes}
    (executed : parser.execute buffer true = some (next, left)) :
    ∃ ran place, exec (effect buffer) breaks buffer 0 [Grammar.main]
        { parser with mParser := {} } = some (ran, next.mParser.cs, place) ∧
      next.mParser.content_len = ran.mParser.content_len := by
  rw [execute, if_pos rfl] at executed
  split at executed
  next => cases executed
  next called =>
    cases executed
    rw [httpclient_parser_execute] at called
    dsimp only at called
    split at called
    next => cases called
    next ran cs place isRun =>
      split at called
      next =>
        cases called
        exact ⟨ran, place, isRun, rfl⟩
      next => cases called

/-- The size that a run from the byte behind the digits takes. -/
theorem exec_size {buffer rest : Bytes} {code : UInt8} {place stop : Nat}
    {parser after : HttpResponseParser} {last : List (Machine Action)}
    (noDigit : digitValue 16 code = none)
    (ran : exec (effect buffer) breaks (code :: rest) place Pending.size.state parser =
      some (after, last, stop)) (going : last ≠ []) :
    code ≠ 0x58 ∧ code ≠ 0x78 ∧
      after.mParser.content_len = toInt32 (strtol 16 (buffer.drop parser.mParser.mark)) := by
  rw [exec] at ran
  split at ran
  next =>
    cases ran
    exact absurd rfl going
  next next actions stepped =>
    obtain ⟨upper, lower, sized, later, rfl, noSize, noLength⟩ := step_behind_digits noDigit stepped
    refine ⟨upper, lower, ?_⟩
    have keeps : ∀ {start broken : HttpResponseParser} {broke : Bool},
        perform (effect buffer) breaks place later start = some (broken, broke) →
          broken.mParser.content_len = start.mParser.content_len := by
      intro start broken broke performed
      apply perform_keeps (fun other => other.mParser.content_len = start.mParser.content_len)
        _ performed rfl
      intro action member state after done same
      rw [effect_content_len (fun isSize => noSize (isSize ▸ member))
        (fun isLength => noLength (isLength ▸ member)) done, same]
    rw [perform] at ran
    split at ran
    next => cases ran
    next state performed =>
      cases ran
      exact keeps performed
    next state performed => exact (exec_content_len sized ran).trans (keeps performed)

/-- The size that a call on a whole line keeps, as the conversions leave it. -/
theorem content_len_of_execute {parser next : HttpResponseParser} {buffer left : Bytes} {size : Nat}
    (executed : parser.execute buffer true = some (next, left)) (noError : next.hasError = false)
    (isFinished : next.isFinished ≠ 0) (spells : hexSize buffer = some size) (more : Bytes) :
    next.mParser.content_len = toInt32 (min (size : Int) (2 ^ 63 - 1)) ∧
      hexSize (buffer ++ more) = some size := by
  obtain ⟨ran, place, isRun, content_len⟩ := exec_of_execute executed
  obtain ⟨digits, rest, parts, areDigits, stops, whole⟩ := hexSize_spec buffer
  have going : next.mParser.cs ≠ [] := by
    intro error
    rw [hasError, httpclient_parser_has_error, error, decide_eq_true rfl, Bool.or_true] at noError
    cases noError
  have given := whole.symm.trans spells
  split at given
  next => cases given
  next nonempty =>
    have value : readDigits 16 0 digits = size := Option.some.inj given
    have behind : exec (effect buffer) breaks (digits ++ rest) 0 [Grammar.main]
          { parser with mParser := {} } =
        exec (effect buffer) breaks rest (0 + digits.length) Pending.size.state
          { parser with mParser := {} } :=
      exec_word lineMoves.first_digit lineMoves.more_digits nonempty
        (fun byte member => xdigit_of_digitValue (areDigits byte member)) rfl rfl rest
    rw [← parts, isRun] at behind
    cases rest with
    | nil =>
        have isSize : next.mParser.cs = Pending.size.state :=
          (Prod.mk.inj (Prod.mk.inj (Option.some.inj behind)).2).1
        have running : next.isFinished = 0 := by
          have notFinal : next.mParser.cs ≠ httpclient_parser_first_final :=
            isSize ▸ size_unfinished
          simp [HttpResponseParser.isFinished, httpclient_parser_finish, httpclient_parser_has_error,
            httpclient_parser_is_finished, going, notFinal]
        exact absurd running isFinished
    | cons code later =>
        have noDigit := stops code rfl
        obtain ⟨upper, lower, size_kept⟩ := exec_size noDigit behind.symm going
        have read : strtol 16 buffer = min (size : Int) (2 ^ 63 - 1) := by
          rw [parts, strtol_digits_min nonempty (Nat.le_refl 16) areDigits noDigit upper lower, value]
        constructor
        · rw [content_len, size_kept, ← read]
          rfl
        · rw [hexSize_append more parts areDigits noDigit, spells]

/-- What follows in the stream does not change the number that an accepted line begins with. -/
theorem hexSize_of_execute {parser next : HttpResponseParser} {buffer left : Bytes}
    (executed : parser.execute buffer true = some (next, left)) (noError : next.hasError = false)
    (isFinished : next.isFinished ≠ 0) (more : Bytes) :
    hexSize (buffer ++ more) = hexSize buffer := by
  cases spells : hexSize buffer with
  | some size => exact (content_len_of_execute executed noError isFinished spells more).2
  | none =>
      obtain ⟨digits, rest, parts, areDigits, stops, whole⟩ := hexSize_spec buffer
      have given := whole.symm.trans spells
      split at given
      next isNil =>
        subst isNil
        cases rest with
        | nil =>
            subst parts
            cases executed
        | cons code later =>
            rw [hexSize_append more parts areDigits (stops code rfl), spells]
      next => cases given

end ChunkLine

namespace HttpConnection

open ChunkLine

/-! ## The copies of a run -/

/-- What `append` and `memmove` copy of a buffer of `length` bytes: from where and how much.
The rest of a chunk that has not come yet is read to the front of the buffer and appended as
far as it was read. -/
def chunkCopies (content_len : Int) (length : Nat) : List (Int × Int) :=
  if toInt32 (content_len + 2) ≤ length then
    [(0, content_len), (content_len + 2, length - content_len - 2)]
  else [(0, length)]

/-- An exception on this way is a copy that leaves the buffer. -/
theorem chunkCopies_of_threw {buff_size : Nat} {content_len : Int} {body data : Bytes}
    {socket : Socket} (fits : toInt32 (content_len + 2) ≤ data.length)
    (threw : recvChunkBody buff_size content_len body data socket = .error .threw) :
    ∃ copy ∈ chunkCopies content_len data.length,
      ¬ (0 ≤ copy.1 ∧ 0 ≤ copy.2 ∧ copy.1 + copy.2 ≤ data.length) := by
  rw [recvChunkBody, if_pos fits] at threw
  rw [chunkCopies, if_pos fits]
  split at threw
  next leaves =>
    rw [Bool.or_eq_true, decide_eq_true_eq, decide_eq_true_eq] at leaves
    refine ⟨_, List.mem_cons_self, ?_⟩
    dsimp only
    omega
  next => cases threw

/-- A chunk whose line has been accepted: the parser, the buffer and the socket before the
line, and the parser and the buffer behind it. -/
structure ChunkHeader where
  parser : HttpResponseParser
  data : Bytes
  socket : Socket
  next : HttpResponseParser
  left : Bytes

namespace ChunkHeader

/-- The stream from the line on. -/
def stream (chunk : ChunkHeader) : Bytes := chunk.data ++ chunk.socket.flatten

/-- The buffer of the first call on the line. -/
def buffer (buff_size : Nat) (chunk : ChunkHeader) : Bytes :=
  chunk.data ++ if chunk.data.length = 0 then (read buff_size chunk.socket).1 else []

/-- The first call takes the whole line. -/
def InOneRead (buff_size : Nat) (chunk : ChunkHeader) : Prop :=
  ∃ next left, chunk.parser.execute (chunk.buffer buff_size) true = some (next, left) ∧
    next.isFinished ≠ 0

/-- The size is the one of the line, the sum with the line end is an `int`, and every copy
lies in the buffer. -/
structure Safe (chunk : ChunkHeader) : Prop where
  size : ∃ size : Nat, hexSize chunk.stream = some size ∧ chunk.next.mParser.content_len = size
  sum : chunk.next.mParser.content_len + 2 < 2 ^ 31
  copies : ∀ copy ∈ chunkCopies chunk.next.mParser.content_len chunk.left.length,
    0 ≤ copy.1 ∧ 0 ≤ copy.2 ∧ copy.1 + copy.2 ≤ chunk.left.length

/-- The line begins with a size that leaves room for the line end. -/
def Fits (chunk : ChunkHeader) : Prop :=
  ∃ size, hexSize chunk.stream = some size ∧ size + 2 < 2 ^ 31

end ChunkHeader

/-- The chunks whose lines `recvChunks` accepts. -/
inductive Accepts (buff_size : Nat) :
    HttpResponseParser → (body data : Bytes) → Socket → ChunkHeader → Prop where
  | here {parser next : HttpResponseParser} {body data left : Bytes} {socket later : Socket}
      (line : recvChunkLine buff_size (socket.flatten.length + 2) true parser data socket =
        .ok (next, left, later)) :
      Accepts buff_size parser body data socket ⟨parser, data, socket, next, left⟩
  | later {parser next : HttpResponseParser} {body more data left after : Bytes}
      {socket later rest : Socket} {chunk : ChunkHeader}
      (line : recvChunkLine buff_size (socket.flatten.length + 2) true parser data socket =
        .ok (next, left, later))
      (copied : recvChunkBody buff_size next.mParser.content_len body left later =
        .ok (more, after, rest))
      (going : next.mParser.chunks_done = false)
      (accepts : Accepts buff_size next more after rest chunk) :
      Accepts buff_size parser body data socket chunk

theorem Accepts.line {buff_size : Nat} {parser : HttpResponseParser} {body data : Bytes}
    {socket : Socket} {chunk : ChunkHeader} (accepts : Accepts buff_size parser body data socket chunk) :
    ∃ later, recvChunkLine buff_size (chunk.socket.flatten.length + 2) true chunk.parser chunk.data
      chunk.socket = .ok (chunk.next, chunk.left, later) := by
  induction accepts with
  | here line => exact ⟨_, line⟩
  | later line copied going accepts ih => exact ih

theorem read_prefix (length : Nat) (socket : Socket) :
    (read length socket).1 <+: socket.flatten := by
  cases socket with
  | nil => exact List.prefix_rfl
  | cons packet later =>
      exact (List.take_prefix _ _).trans (List.prefix_append _ _)

/-- The first call of the loop. -/
theorem recvChunkLine_first (buff_size fuel : Nat) (parser : HttpResponseParser) (data : Bytes)
    (socket : Socket) {result : HttpResponseParser × Bytes × Socket}
    (line : recvChunkLine buff_size (fuel + 1) true parser data socket = .ok result)
    {next : HttpResponseParser} {left : Bytes}
    (executed : parser.execute
      (data ++ if data.length = 0 then (read buff_size socket).1 else []) true = some (next, left))
    (isFinished : next.isFinished ≠ 0) :
    result.1 = next ∧ result.2.1 = left ∧ next.hasError = false := by
  rw [recvChunkLine, Bool.not_true, Bool.false_or] at line
  have buffer : (if decide (data.length = 0) = true then read (buff_size - data.length) socket
      else ([], socket)).1 = if data.length = 0 then (read buff_size socket).1 else [] := by
    by_cases empty : data.length = 0
    · rw [if_pos (decide_eq_true empty), if_pos empty, empty, Nat.sub_zero]
    · rw [if_neg (by simpa using empty), if_neg empty]
  generalize (if decide (data.length = 0) = true then read (buff_size - data.length) socket
    else ([], socket)) = got at line buffer
  obtain ⟨bytes, after⟩ := got
  dsimp only at line buffer
  rw [← buffer] at executed
  rw [executed] at line
  split at line
  next => cases line
  next =>
    dsimp only at line
    split at line
    next => cases line
    next noError =>
      split at line
      next => cases line
      next =>
        cases line
        exact ⟨rfl, rfl, Bool.of_not_eq_true noError⟩

/-- A line in one read. -/
theorem ChunkHeader.InOneRead.accepted {buff_size fuel : Nat} {chunk : ChunkHeader} {later : Socket}
    (one : chunk.InOneRead buff_size)
    (line : recvChunkLine buff_size (fuel + 1) true chunk.parser chunk.data chunk.socket =
      .ok (chunk.next, chunk.left, later)) :
    chunk.parser.execute (chunk.buffer buff_size) true = some (chunk.next, chunk.left) ∧
      chunk.next.hasError = false ∧ chunk.next.isFinished ≠ 0 ∧
      ∃ more, chunk.stream = chunk.buffer buff_size ++ more := by
  obtain ⟨next, left, executed, isFinished⟩ := one
  obtain ⟨rfl, rfl, noError⟩ := recvChunkLine_first buff_size fuel _ _ _ line executed isFinished
  refine ⟨executed, noError, isFinished, ?_⟩
  rw [ChunkHeader.stream, ChunkHeader.buffer]
  split
  next =>
    obtain ⟨more, parts⟩ := read_prefix buff_size chunk.socket
    exact ⟨more, by rw [List.append_assoc, parts]⟩
  next => exact ⟨chunk.socket.flatten, by rw [List.append_nil]⟩

/-- A size that the conversions leave alone, and the copies for it. -/
theorem chunkCopies_inside {size : Nat} (small : size + 2 < 2 ^ 31) (length : Nat) :
    toInt32 (min (size : Int) (2 ^ 63 - 1)) = size ∧
      ∀ copy ∈ chunkCopies size length, 0 ≤ copy.1 ∧ 0 ≤ copy.2 ∧ copy.1 + copy.2 ≤ length := by
  have within : min (size : Int) (2 ^ 63 - 1) = size := by omega
  have sum : toInt32 ((size : Int) + 2) = size + 2 := toInt32_of_small small
  rw [within, toInt32_of_small (by omega), chunkCopies, sum]
  refine ⟨rfl, fun copy member => ?_⟩
  split at member
  next fits =>
    rcases List.mem_cons.mp member with rfl | member
    · dsimp only
      omega
    · rw [List.mem_singleton.mp member]
      dsimp only
      omega
  next =>
    rw [List.mem_singleton.mp member]
    dsimp only
    omega

/-- A chunk whose line comes in one read is copied safely when its size fits. -/
theorem ChunkHeader.Fits.safe {buff_size fuel : Nat} {chunk : ChunkHeader} {later : Socket}
    (fits : chunk.Fits) (one : chunk.InOneRead buff_size)
    (line : recvChunkLine buff_size (fuel + 1) true chunk.parser chunk.data chunk.socket =
      .ok (chunk.next, chunk.left, later)) : chunk.Safe := by
  obtain ⟨size, spells, small⟩ := fits
  obtain ⟨executed, noError, isFinished, more, parts⟩ := one.accepted line
  have here : hexSize (chunk.buffer buff_size) = some size := by
    rw [← hexSize_of_execute executed noError isFinished more, ← parts, spells]
  obtain ⟨content_len, -⟩ := content_len_of_execute executed noError isFinished here more
  obtain ⟨kept, inside⟩ := chunkCopies_inside small chunk.left.length
  rw [kept] at content_len
  constructor
  case size => exact ⟨size, spells, content_len⟩
  case sum =>
    rw [content_len]
    omega
  case copies =>
    rw [content_len]
    exact inside

theorem ChunkHeader.Safe.fits {chunk : ChunkHeader} (safe : chunk.Safe) : chunk.Fits := by
  obtain ⟨size, spells, content_len⟩ := safe.size
  have sum := safe.sum
  rw [content_len] at sum
  exact ⟨size, spells, by omega⟩

/-- The chunks of a response whose header comes first in the stream. -/
def Receives (buff_size : Nat) (socket : Socket) (chunk : ChunkHeader) : Prop :=
  ∃ parser data later,
    recvHeader buff_size (socket.flatten.length + 1) {} [] socket = .ok (parser, data, later) ∧
      parser.mParser.chunked = true ∧ Accepts buff_size parser [] data later chunk

/-- Where no line is cut, the copies of a run are safe exactly when every size that the server
sends leaves room for the line end in an `int`. -/
theorem recvResponse_safe_iff {buff_size : Nat} {socket : Socket}
    (whole : ∀ chunk, Receives buff_size socket chunk → chunk.InOneRead buff_size) :
    (∀ chunk, Receives buff_size socket chunk → chunk.Safe) ↔
      ∀ chunk, Receives buff_size socket chunk → chunk.Fits := by
  constructor
  · exact fun safe chunk receives => (safe chunk receives).fits
  · intro fits chunk receives
    obtain ⟨parser, data, later, received, chunked, accepts⟩ := receives
    have accepted : Receives buff_size socket chunk :=
      ⟨parser, data, later, received, chunked, accepts⟩
    obtain ⟨rest, line⟩ := accepts.line
    exact (fits chunk accepted).safe (whole chunk accepted) line

/-- The parser behind the line of a chunk that follows the header in a read of its own. -/
def lineParser (line : Bytes) : HttpResponseParser :=
  (((blockParser []).execute line true).getD ({}, [])).1

/-- The last chunk alone. -/
theorem recvResponse_safe_iff_last :
    (∀ chunk, Receives 4096 [block, ascii "0\r\n\r\n"] chunk → chunk.Fits) ∧
      ∀ chunk, Receives 4096 [block, ascii "0\r\n\r\n"] chunk → chunk.Safe := by
  have header : recvHeader 4096 ([block, ascii "0\r\n\r\n"].flatten.length + 1) {} []
      [block, ascii "0\r\n\r\n"] = .ok (blockParser [], [], [ascii "0\r\n\r\n"]) := by
    decide +kernel
  have first : recvChunkLine 4096 ([ascii "0\r\n\r\n"].flatten.length + 2) true (blockParser []) []
      [ascii "0\r\n\r\n"] = .ok (lineParser (ascii "0\r\n\r\n"), ascii "\r\n", []) := by
    decide +kernel
  have executed : (blockParser []).execute ([] ++ if ([] : Bytes).length = 0 then
      (read 4096 [ascii "0\r\n\r\n"]).1 else []) true =
        some (lineParser (ascii "0\r\n\r\n"), ascii "\r\n") := by
    decide +kernel
  have spells : hexSize ([] ++ [ascii "0\r\n\r\n"].flatten) = some 0 := by decide +kernel
  have only : ∀ chunk, Receives 4096 [block, ascii "0\r\n\r\n"] chunk →
      chunk.InOneRead 4096 ∧ chunk.Fits := by
    rintro chunk ⟨parser, data, later, received, -, accepts⟩
    rw [header] at received
    cases received
    cases accepts with
    | here line =>
        constructor
        · exact ⟨_, _, executed, by decide +kernel⟩
        · exact ⟨0, spells, by decide⟩
    | later line copied going accepts =>
        rw [first] at line
        cases line
        have isLast : (lineParser (ascii "0\r\n\r\n")).mParser.chunks_done = true := by
          decide +kernel
        rw [isLast] at going
        cases going
  have fits := fun chunk receives => (only chunk receives).2
  exact ⟨fits, (recvResponse_safe_iff fun chunk receives => (only chunk receives).1).mpr fits⟩

/-- A size of eight digits is negative as an `int`. -/
theorem size_wraps :
    ¬ ∀ chunk, Receives 4096 [block, ascii "fffffff0\r\n"] chunk → chunk.Safe := by
  intro safe
  have header : recvHeader 4096 ([block, ascii "fffffff0\r\n"].flatten.length + 1) {} []
      [block, ascii "fffffff0\r\n"] = .ok (blockParser [], [], [ascii "fffffff0\r\n"]) := by
    decide +kernel
  have first : recvChunkLine 4096 ([ascii "fffffff0\r\n"].flatten.length + 2) true (blockParser [])
      [] [ascii "fffffff0\r\n"] = .ok (lineParser (ascii "fffffff0\r\n"), [], []) := by
    decide +kernel
  have negative : (lineParser (ascii "fffffff0\r\n")).mParser.content_len = -16 := by
    decide +kernel
  obtain ⟨size, -, content_len⟩ :=
    (safe _ ⟨_, _, _, header, by decide +kernel, .here first⟩).size
  have same : (-16 : Int) = size := negative.symm.trans content_len
  omega

end HttpConnection

end Exhy.Http
