import Exhy.Http.Fragmentation

/-!
# Requests one after another

`HttpServer::handleClient` of `http_server.cpp` calls `recvRequest` again and again.  The
buffer lives as long as one call, so what is in it behind the body of a request is lost.
-/

namespace Exhy.Http

open Library Machine

namespace HttpServer

open HttpSession

/-- `handleClient(client)`: the requests that it hands to the servlets, when its parsers find
those memories. -/
def handleClient (m_isKeepalive : Bool) (buff_size : Nat) :
    List HttpParser → Socket → List HttpRequest
  | [], _ => []
  | memory :: memories, socket =>
      match recvRequest memory buff_size socket with
      | .error _ => []
      | .ok (request, socket) =>
          request ::
            if !m_isKeepalive || request.m_close then []
            else handleClient m_isKeepalive buff_size memories socket

end HttpServer

namespace HttpSession

open HttpRequestParser

/-- A complete request: a header, which is all that the callbacks read, and as many bytes
behind it as its content length says.  `memory` is what its parser finds. -/
structure Sent where
  memory : HttpParser
  bytes : Bytes
  data : Parsed
  request : HttpRequest
  header : HeaderOf memory bytes data
  inside : ∀ token ∈ requestTokens memory bytes, token.2 < (scanned memory bytes).position
  length : bytes.length =
    (scanned memory bytes).position + (contentLength data.m_data).toNat
  body : bodyOf (contentLength data.m_data) data.m_data
    (bytes.drop (scanned memory bytes).position) = .ok request

namespace Sent

/-- Where the header ends. -/
def headerEnd (sent : Sent) : Nat := (scanned sent.memory sent.bytes).position

variable {sent : Sent} {buff_size : Nat} {socket : Socket}

theorem headerEnd_pos (sent : Sent) : 0 < sent.headerEnd :=
  (position_of_broke sent.header.broke).1

theorem headerEnd_le (sent : Sent) : sent.headerEnd ≤ sent.bytes.length := by
  rw [sent.length]
  exact Nat.le_add_right ..

/-- The run over a part of the request that has the header. -/
theorem scan_take (sent : Sent) {count : Nat} (whole : sent.headerEnd ≤ count)
    (within : count ≤ sent.bytes.length) :
    scan breaks (sent.bytes.take count) 0 (init sent.memory).mParser.cs =
      scanned sent.memory sent.bytes := by
  have full : scanned sent.memory sent.bytes =
      scan breaks (sent.bytes.take count ++ sent.bytes.drop count) 0
        (init sent.memory).mParser.cs := by
    rw [List.take_append_drop]
    rfl
  cases stopped :
      (scan breaks (sent.bytes.take count) 0 (init sent.memory).mParser.cs).stopped with
  | true => rw [full, scan_append_stopped _ stopped]
  | false =>
      -- the run would go on behind the header
      have broke := sent.header.broke
      rw [headerEnd] at whole
      rw [full, scan_append_running _ stopped] at broke whole
      have behind := (position_of_broke broke).1
      rw [List.length_take, Nat.min_eq_left within, Nat.zero_add] at behind whole
      exact absurd whole (Nat.not_le.mpr behind)

/-- The read that brings the header brings no byte of the next request. -/
structure Brought (sent : Sent) (buff_size : Nat) (socket : Socket) : Prop where
  header : sent.headerEnd ≤ (read buff_size socket).1.length
  request : (read buff_size socket).1.length ≤ sent.bytes.length

theorem recvHeader_sent {fuel : Nat} {rest : Bytes} (small : buff_size < 2 ^ 31)
    (full : socket.Full) (parts : socket.flatten = sent.bytes ++ rest)
    (brought : sent.Brought buff_size socket) :
    ∃ next, recvHeader buff_size (fuel + 1) (init sent.memory) [] socket =
        .ok (next, (read buff_size socket).1.drop sent.headerEnd, (read buff_size socket).2) ∧
      next.toParsed = sent.data := by
  have positive := sent.headerEnd_pos
  have header := brought.header
  have within := brought.request
  have limit := length_read_le buff_size socket
  have taken := (read_spec full (show 0 < buff_size by omega)).1
  generalize got : read buff_size socket = result at header within limit taken
  obtain ⟨packet, later⟩ := result
  dsimp only at header within limit taken ⊢
  have nonempty : packet ≠ [] := List.ne_nil_of_length_pos (by omega)
  have isPart : packet = sent.bytes.take packet.length := by
    rw [← List.take_append_of_le_length within, ← parts, ← taken, List.take_left]
  have same := sent.scan_take header within
  rw [← isPart] at same
  have split : sent.bytes.drop 0 = packet ++ sent.bytes.drop packet.length := by
    rw [List.drop_zero]
    conv_lhs => rw [← List.take_append_drop packet.length sent.bytes, ← isPart]
  have followed : Marks.follow sent.memory.query_start sent.bytes
      (scan breaks packet 0 (init sent.memory).mParser.cs).events {} (init sent.memory).toParsed =
        some sent.data := by
    rw [same]
    exact sent.header.followed
  obtain ⟨next, executed, isData, cs, -⟩ :=
    execute_part nonempty (List.cons_ne_nil _ _) (resumes_init sent.memory) split
      (fun token member => by
        rw [same] at member
        have inside := sent.inside token member
        rw [headerEnd] at header
        exact ⟨Nat.zero_le _, .inl (by omega)⟩)
      followed
  rw [same] at executed cs
  have isFinal : final next.mParser.cs = true := by
    rw [cs, ← same, ← broke_eq_final (resumes_init sent.memory).ends nonempty, same]
    exact sent.header.broke
  refine ⟨next, ?_, isData⟩
  refine recvHeader_finished small got nonempty executed ?_ isFinal ?_
  · rw [isData]
    exact sent.header.noError
  · rw [List.length_drop]
    omega

/-- A body that has its length does not depend on what follows. -/
theorem bodyOf_append {length : Int} {request : HttpRequest} {body : Bytes} (rest : Bytes)
    (exactly : body.length = length.toNat) :
    bodyOf length request (body ++ rest) = bodyOf length request body := by
  rw [bodyOf, bodyOf]
  split
  next some =>
    have fits : length ≤ ((body ++ rest).length : Int) := by
      rw [List.length_append]
      omega
    rw [if_pos fits, if_pos (by omega), List.take_append_of_le_length (by omega)]
  next => rfl

/-- One call receives the request and leaves what comes behind it. -/
theorem recvRequest_sent {rest : Bytes} (small : buff_size < 2 ^ 31) (full : socket.Full)
    (parts : socket.flatten = sent.bytes ++ rest) (brought : sent.Brought buff_size socket) :
    recvRequest sent.memory buff_size socket =
      .ok (sent.request, socket.skip sent.bytes.length) := by
  obtain ⟨next, received, isData⟩ := recvHeader_sent small full parts brought
  have header := brought.header
  have within := brought.request
  have length := sent.length
  have positive := sent.headerEnd_pos
  have limit := length_read_le buff_size socket
  have taken := (read_spec full (show 0 < buff_size by omega)).1
  have behind : (read buff_size socket).1.drop sent.headerEnd ++
      (read buff_size socket).2.flatten = sent.bytes.drop sent.headerEnd ++ rest := by
    rw [← List.drop_append_of_le_length header, taken, parts,
      List.drop_append_of_le_length sent.headerEnd_le]
  have exactly : (sent.bytes.drop sent.headerEnd).length =
      (contentLength sent.data.m_data).toNat := by
    rw [List.length_drop, length, headerEnd]
    omega
  have fullLater : (read buff_size socket).2.Full := read_eq_skip full ▸ full.skip _
  rw [recvRequest_of_header received, recvBody_eq _ _ _ fullLater, behind, isData,
    bodyOf_append rest exactly, headerEnd, sent.body, Except.map, read_eq_skip full,
    Socket.skip_skip, List.length_drop]
  congr 3
  rw [headerEnd] at header
  omega

end Sent

end HttpSession

namespace HttpServer

open HttpSession

/-- The reads bring each request on its own, as far as its header. -/
def Brings (buff_size : Nat) : List Sent → Socket → Prop
  | [], _ => True
  | sent :: later, socket =>
      sent.Brought buff_size socket ∧ Brings buff_size later (socket.skip sent.bytes.length)

section Connection

variable {buff_size : Nat} {sent : List Sent} {socket : Socket}

theorem eq_nil_of_flatten (full : socket.Full) (nothing : socket.flatten = []) : socket = [] := by
  have none := full.length_le
  rw [nothing] at none
  exact List.eq_nil_of_length_eq_zero (Nat.le_zero.mp none)

/-- What the reads bring behind the first request. -/
theorem flatten_behind {first : Sent} {later : List Sent}
    (parts : socket.flatten = (first :: later).flatMap (·.bytes)) :
    (socket.skip first.bytes.length).flatten = later.flatMap (·.bytes) := by
  rw [Socket.flatten_skip, parts, List.flatMap_cons, List.drop_left]

/-- The requests up to the first that closes the connection. -/
def untilClose : List HttpRequest → List HttpRequest
  | [] => []
  | request :: later => request :: if request.m_close then [] else untilClose later

/-- The loop hands them to the servlets until one of them closes the connection. -/
theorem handleClient_eq (more : List HttpParser) (small : buff_size < 2 ^ 31)
    (full : socket.Full) (parts : socket.flatten = sent.flatMap (·.bytes))
    (brings : Brings buff_size sent socket) :
    handleClient true buff_size (sent.map (·.memory) ++ more) socket =
      untilClose (sent.map (·.request)) := by
  induction sent generalizing socket with
  | nil =>
      rw [List.flatMap_nil] at parts
      rw [eq_nil_of_flatten full parts]
      cases more <;> rfl
  | cons first later ih =>
      have rest := flatten_behind parts
      rw [List.flatMap_cons] at parts
      rw [List.map_cons, List.cons_append, handleClient,
        Sent.recvRequest_sent small full parts brings.1]
      dsimp only
      rw [ih (full.skip _) rest brings.2]
      rfl

end Connection

end HttpServer

end Exhy.Http
