import Exhy.Http.ChunkLine
import Exhy.Http.Connection
import Exhy.Http.Fragmentation

/-!
# Responses in chunks

`recvResponse` starts the parser anew for each read of the line of a chunk.  A line that a
read cuts is lost up to the cut; otherwise the body is that of the chunks.
-/

namespace Exhy.Http

open Library Machine Httpclient

/-! ## Where the reads end -/

/-- The positions at which the packets end. -/
def ends : (base : Nat) → Socket → List Nat
  | _, [] => []
  | base, packet :: later => (base + packet.length) :: ends (base + packet.length) later

/-- The lines of some chunks: the first byte and the line feed. -/
def lines : (base : Nat) → List Chunk → List (Nat × Nat)
  | _, [] => []
  | base, chunk :: later =>
      (base, base + chunk.line.length - 1) :: lines (base + chunk.bytes.length) later

theorem ends_skip {base count : Nat} {socket : Socket} :
    ∀ cut ∈ ends (base + count) (socket.skip count), cut ∈ ends base socket := by
  intro cut member
  induction socket generalizing base count with
  | nil => cases member
  | cons packet later ih =>
      rw [Socket.skip] at member
      rw [ends, List.mem_cons]
      split at member
      next inside =>
        have same : base + count = base + packet.length + (count - packet.length) := by omega
        rw [same] at member
        exact .inr (ih member)
      next beyond =>
        rw [ends, List.length_drop, show base + count + (packet.length - count) = base + packet.length
          by omega, List.mem_cons] at member
        exact member

theorem le_of_mem_lines {base : Nat} {chunks : List Chunk} {line : Nat × Nat}
    (member : line ∈ lines base chunks) : base ≤ line.1 := by
  induction chunks generalizing base with
  | nil => cases member
  | cons chunk later ih =>
      rcases List.mem_cons.mp member with rfl | inLater
      · exact Nat.le_refl _
      · exact Nat.le_trans (Nat.le_add_right ..) (ih inLater)

theorem Socket.length_skip_le {socket : Socket} {size : Nat} (count : Nat)
    (fits : ∀ packet ∈ socket, packet.length ≤ size) :
    ∀ packet ∈ socket.skip count, packet.length ≤ size := by
  induction socket generalizing count with
  | nil => exact fits
  | cons packet later ih =>
      have rest := fun other member => fits other (List.mem_cons_of_mem packet member)
      rw [Socket.skip]
      split
      next => exact ih _ rest
      next =>
        intro other member
        rcases List.mem_cons.mp member with rfl | member
        · rw [List.length_drop]
          exact Nat.le_trans (Nat.sub_le ..) (fits packet List.mem_cons_self)
        · exact rest other member

namespace HttpConnection

open HttpResponseParser

/-! ## One chunk -/

section OneChunk

variable {buff_size : Nat} {socket : Socket} {parser : HttpResponseParser} {data : Bytes}

theorem doneState_eq : ChunkLine.doneState = httpclient_parser_first_final := by
  decide +kernel

end OneChunk

/-! ## All chunks -/

/-- The chunks to come: some bytes are in the buffer, the others in the socket, and no read
ends inside the line of a chunk. -/
structure Comes (buff_size base : Nat) (chunks : List Chunk) (data : Bytes) (socket : Socket) :
    Prop where
  full : socket.Full
  fits : ∀ packet ∈ socket, packet.length ≤ buff_size
  short : data.length ≤ buff_size
  parts : data ++ socket.flatten = chunks.flatMap Chunk.bytes
  uncut : Uncut (lines base chunks) ((base + data.length) :: ends (base + data.length) socket)

section Loop

variable {buff_size base : Nat} {chunk : Chunk} {later : List Chunk} {data : Bytes}
  {socket : Socket}

theorem line_pos (chunk : Chunk) : 0 < chunk.line.length := by
  have digits := List.length_pos_of_ne_nil chunk.digits_some
  rw [Chunk.line, List.append_assoc, List.length_append]
  omega

/-- Bytes that end behind the line begin with it. -/
theorem line_prefix {front rest : Bytes} (chunk : Chunk)
    (parts : front ++ rest = chunk.line ++ chunk.payload ++ ascii "\r\n" ++ after)
    (whole : chunk.line.length ≤ front.length) :
    front = chunk.line ++ front.drop chunk.line.length ∧
      front.drop chunk.line.length ++ rest = chunk.payload ++ ascii "\r\n" ++ after := by
  have line : front.take chunk.line.length = chunk.line := by
    rw [← List.take_append_of_le_length whole, parts, List.append_assoc, List.append_assoc,
      List.take_left]
  constructor
  · conv_lhs => rw [← List.take_append_drop chunk.line.length front, line]
  · rw [← List.drop_append_of_le_length whole, parts, List.append_assoc, List.append_assoc,
      List.drop_left, List.append_assoc]

/-- The line of the next chunk is in the buffer, or comes as a whole. -/
theorem Comes.line (comes : Comes buff_size base (chunk :: later) data socket) :
    ∃ more rest, (data = chunk.line ++ more ∧ socket = rest ∨
        data = [] ∧ read buff_size socket = (chunk.line ++ more, rest)) ∧
      (chunk.line ++ more).length ≤ buff_size ∧ rest.Full ∧
      (∀ packet ∈ rest, packet.length ≤ buff_size) ∧
      more ++ rest.flatten = chunk.payload ++ ascii "\r\n" ++ later.flatMap Chunk.bytes ∧
      ∀ cut ∈ (base + (chunk.line ++ more).length) :: ends (base + (chunk.line ++ more).length) rest,
        cut ∈ (base + data.length) :: ends (base + data.length) socket := by
  have parts := comes.parts
  have line := line_pos chunk
  rw [List.flatMap_cons, Chunk.bytes] at parts
  by_cases buffered : data = []
  · rw [buffered, List.nil_append] at parts
    cases socket with
    | nil =>
        have lengths := congrArg List.length parts
        simp only [List.flatten_nil, List.length_nil, List.length_append] at lengths
        omega
    | cons packet rest =>
        have whole : chunk.line.length ≤ packet.length := by
          have uncut := comes.uncut (base, base + chunk.line.length - 1) List.mem_cons_self
            (base + packet.length) (by simp [buffered, ends])
          have filled := List.length_pos_of_ne_nil (comes.full packet List.mem_cons_self)
          omega
        rw [List.flatten_cons] at parts
        obtain ⟨front, behind⟩ := line_prefix chunk parts whole
        have fits := comes.fits packet List.mem_cons_self
        refine ⟨packet.drop chunk.line.length, rest, .inr ⟨buffered, ?_⟩, ?_, comes.full.tail,
          fun other member => comes.fits other (List.mem_cons_of_mem _ member), behind, ?_⟩
        · rw [← front, read, if_pos fits, List.take_of_length_le fits]
        · rw [← front]
          exact fits
        · rw [← front, buffered]
          intro cut member
          exact List.mem_cons_of_mem _ member
  · have whole : chunk.line.length ≤ data.length := by
      have uncut := comes.uncut (base, base + chunk.line.length - 1) List.mem_cons_self
        (base + data.length) List.mem_cons_self
      have filled := List.length_pos_of_ne_nil buffered
      omega
    obtain ⟨front, behind⟩ := line_prefix chunk parts whole
    refine ⟨data.drop chunk.line.length, socket, .inl ⟨front, rfl⟩, ?_, comes.full, comes.fits, behind,
      ?_⟩
    · rw [← front]
      exact comes.short
    · rw [← front]
      exact fun cut member => member

/-- Behind a chunk the later ones are to come. -/
theorem Comes.next (comes : Comes buff_size base (chunk :: later) data socket) {more : Bytes}
    {rest : Socket} (short : (chunk.line ++ more).length ≤ buff_size) (full : rest.Full)
    (fits : ∀ packet ∈ rest, packet.length ≤ buff_size)
    (parts : more ++ rest.flatten = chunk.payload ++ ascii "\r\n" ++ later.flatMap Chunk.bytes)
    (within : ∀ cut ∈ (base + (chunk.line ++ more).length) ::
        ends (base + (chunk.line ++ more).length) rest,
      cut ∈ (base + data.length) :: ends (base + data.length) socket) :
    Comes buff_size (base + chunk.bytes.length) later (more.drop (chunk.payload.length + 2))
      (rest.skip (chunk.payload.length + 2 - more.length)) := by
  have length : chunk.bytes.length = chunk.line.length + (chunk.payload.length + 2) := by
    simp [Chunk.bytes, ascii]
  rw [List.length_append] at short
  simp only [List.length_append] at within
  constructor
  case full => exact full.skip _
  case fits => exact Socket.length_skip_le _ fits
  case short =>
    rw [List.length_drop]
    omega
  case parts =>
    rw [Socket.flatten_skip, ← List.drop_append, parts, List.drop_left' (by simp [ascii])]
  case uncut =>
    intro line member
    have later := comes.uncut line (List.mem_cons_of_mem _ member)
    have behind := le_of_mem_lines member
    rw [length] at behind ⊢
    rw [List.length_drop]
    by_cases inBuffer : chunk.payload.length + 2 ≤ more.length
    · -- the buffer still ends where it did
      have same : base + (chunk.line.length + (chunk.payload.length + 2)) +
          (more.length - (chunk.payload.length + 2)) =
            base + (chunk.line.length + more.length) := by omega
      rw [same, show chunk.payload.length + 2 - more.length = 0 by omega, Socket.skip_zero full]
      exact fun cut isCut => later cut (within cut isCut)
    · -- the buffer is empty, in front of the next line
      have same : base + (chunk.line.length + (chunk.payload.length + 2)) =
          base + (chunk.line.length + more.length) +
            (chunk.payload.length + 2 - more.length) := by omega
      rw [show more.length - (chunk.payload.length + 2) = 0 by omega, Nat.add_zero]
      intro cut isCut
      rcases List.mem_cons.mp isCut with rfl | isCut
      · exact fun inside => absurd inside.1 (by omega)
      · rw [same] at isCut
        exact later cut (within cut (List.mem_cons_of_mem _ (ends_skip cut isCut)))

end Loop

/-- No chunk has an extension that the parser takes for a content encoding. -/
def Plain (chunks : List Chunk) : Prop :=
  ∀ chunk ∈ chunks, ∀ extension ∈ chunk.extensions,
    folded extension.name ≠ folded (ascii "content-encoding")

theorem setBody_of_identity (zlib : ZlibStream) {response : HttpResponse} (body : Bytes)
    (identity : response.getHeader (ascii "content-encoding") [] = []) (fresh : response.m_body = []) :
    setBody zlib response body = { response with m_body := body } := by
  rw [setBody]
  split
  next nothing => rw [nothing, ← fresh]
  next =>
    have gzip : folded ([] : Bytes) ≠ folded (ascii "gzip") := by decide
    have deflate : folded ([] : Bytes) ≠ folded (ascii "deflate") := by decide
    dsimp only
    rw [identity, if_neg gzip, if_neg deflate]

/-- A header block that the first read brings as a whole. -/
theorem recvHeader_eq (fuel : Nat) {buff_size : Nat} {header more : Bytes} (later : Socket)
    {parser : HttpResponseParser} (small : buff_size < 2 ^ 31)
    (fits : (header ++ more).length ≤ buff_size) (block : header ≠ [])
    (executed : HttpResponseParser.execute {} (header ++ more) false = some (parser, more))
    (noError : parser.hasError = false) (finished : parser.isFinished ≠ 0) :
    recvHeader buff_size (fuel + 1) {} [] ((header ++ more) :: later) = .ok (parser, more, later) := by
  have filled := List.length_pos_of_ne_nil block
  have nonempty : header ++ more ≠ [] := fun nothing => block (List.append_eq_nil_iff.mp nothing).1
  have notFull : (more.length : Int) ≠ toInt32 buff_size := by
    rw [List.length_append] at fits
    rw [toInt32_of_small small]
    omega
  rw [recvHeader, HttpSession.read_packet fits]
  dsimp only
  rw [if_neg nonempty, List.nil_append, executed]
  dsimp only
  rw [noError, if_neg Bool.false_ne_true, if_neg notFull, if_pos finished]

def block : Bytes := ascii "HTTP/1.1 200 OK\r\nTransfer-Encoding: chunked\r\n\r\n"

/-- The last chunk. -/
def zero : Chunk where
  digits := ascii "0"
  extensions := []
  payload := []
  digits_some := by decide
  digits_hex := by decide
  size := by decide
  small := by decide

/-- The parser behind the header block. -/
def blockParser (more : Bytes) : HttpResponseParser :=
  ((HttpResponseParser.execute {} (block ++ more) false).getD ({}, [])).1

/-- The parser takes the whole block and is not finished: the line of the chunk is read as more
of the header. -/
example :
    (recvResponse ⟨id, id⟩ 4096
        [ascii "HTTP/1.1 200 OK\r\nTransfer-Encoding: chunked\r\nConnection:\r\n\r\n",
          ascii "5\r\nhello\r\n0\r\n\r\n"]).map Prod.fst = .error .closed ∧
    (recvResponse ⟨id, id⟩ 4096
        [ascii "HTTP/1.1 200 OK\r\nConnection:\r\nTransfer-Encoding: chunked\r\n\r\n",
          ascii "5\r\nhello\r\n0\r\n\r\n"]).map (·.1.m_body) = .ok (ascii "hello") := by
  constructor
  · decide +kernel
  · decide +kernel

end HttpConnection

end Exhy.Http
