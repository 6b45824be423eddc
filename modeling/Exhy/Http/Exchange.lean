import Exhy.Http.Pipeline
import Exhy.Http.RequestRoundTrip
import Exhy.Http.ResponseRoundTrip
import Exhy.Http.Servlet
import Exhy.Library.Transition

/-!
# A client and a server

The two ends of one connection: a client that sends requests and receives responses in turn, and
`HttpServer::handleClient` of `http_server.cpp` with the servlets of `http_servlet.cpp`, which
other threads add and delete meanwhile.
-/

namespace Exhy.Http

open Library

/-! ## The server -/

/-- `handle(request, response, session)` of a servlet: what it leaves of the request and of the
response, to both of which it has a pointer. -/
abbrev Handle := HttpRequest → HttpResponse → HttpRequest × HttpResponse

namespace NotFoundServlet

def m_content (name : Bytes) : Bytes :=
  ascii "<html><head><title>404 Not Found" ++
    ascii "</title></head><body><center><h1>404 Not Found</h1></center>" ++
    ascii "<hr><center>" ++ name ++ ascii "</center></body></html>"

def handle (name : Bytes) : Handle := fun request response =>
  let response := { response with m_status := 404 }
  let response := response.setHeader (ascii "Server") (ascii "exhy/1.0.0")
  let response := response.setHeader (ascii "Content-Type") (ascii "text/html")
  (request, { response with m_body := m_content name })

end NotFoundServlet

namespace ServletDispatch

/-- The constructor. -/
def new : ServletDispatch Handle := init (NotFoundServlet.handle (ascii "wxy/1.0.0"))

def handle (dispatch : ServletDispatch Handle) (fnmatch : Bytes → Bytes → Int) : Handle :=
  fun request response => dispatch.getMatchedServlet fnmatch request.m_path request response

end ServletDispatch

namespace HttpServer

/-- The part of the loop between `recvRequest` and `sendResponse`. -/
def respond (m_isKeepalive : Bool) (handle : Handle) (request : HttpRequest) :
    HttpRequest × HttpResponse :=
  handle request
    { m_version := request.m_version
      m_close := request.m_close || !m_isKeepalive
      m_body := ascii "hello wxy 2021 11 20" }

end HttpServer

/-! ## The connection -/

namespace Exchange

/-- What stays the same in a run. -/
structure Setting where
  m_isKeepalive : Bool
  fnmatch : Bytes → Bytes → Int
  zlib : HttpConnection.ZlibStream
  /-- The buffers of the server's parser and of the client's. -/
  requestBuffer : Nat
  responseBuffer : Nat

/-- A request that the servlets were handed, how many operations of the dispatch came before, what
they left of the request, and the response. -/
structure Turn where
  request : HttpRequest
  operations : Nat
  left : HttpRequest
  response : HttpResponse

structure State where
  /-- What the client is still to send, has sent and has received. -/
  todo : List HttpRequest
  sent : List HttpRequest
  received : List HttpResponse
  /-- What is on its way to the server and to the client. -/
  upstream : Socket
  downstream : Socket
  m_dispatch : ServletDispatch Handle
  /-- What was done to the dispatch. -/
  operations : List (ServletDispatch.Operation Handle)
  handled : List Turn
  /-- The loop of `handleClient` goes on. -/
  serving : Bool
  /-- Why the client got no response. -/
  stopped : Option Stop

inductive Event where
  | sendRequest
  | operate (operation : ServletDispatch.Operation Handle)
  | handle (memory : HttpParser) (packets : Socket)
  | refuse (memory : HttpParser)
  | recvResponse
  | lose

/-- The client waits for a response. -/
def State.Waits (state : State) : Prop :=
  state.stopped = none ∧ state.received.length < state.sent.length

/-- The turn that a request makes in a state. -/
def State.turn (setting : Setting) (state : State) (request : HttpRequest) : Turn :=
  let left := HttpServer.respond setting.m_isKeepalive
    (state.m_dispatch.handle setting.fnmatch) request
  ⟨request, state.operations.length, left.1, left.2⟩

/-- The loop of `handleClient` breaks behind the turn. -/
def Turn.closes (setting : Setting) (turn : Turn) : Bool :=
  !setting.m_isKeepalive || turn.left.m_close

/-- A read waits for a packet, or for the end of the connection. -/
inductive Step (setting : Setting) : State → Event → State → Prop where
  | sendRequest {state : State} {request : HttpRequest} {later : List HttpRequest}
      (next : state.todo = request :: later) (goesOn : state.stopped = none)
      (free : state.sent.length = state.received.length) :
      Step setting state .sendRequest
        { state with
          todo := later
          sent := state.sent ++ [request]
          upstream := state.upstream ++ [request.dump] }
  | operate {state : State} (operation : ServletDispatch.Operation Handle) :
      Step setting state (.operate operation)
        { state with
          m_dispatch := state.m_dispatch.apply operation
          operations := state.operations ++ [operation] }
  | handle {state : State} {memory : HttpParser} {packets rest : Socket} {request : HttpRequest}
      (serving : state.serving = true) (arrived : state.upstream ≠ [])
      (got : HttpSession.recvRequest memory setting.requestBuffer state.upstream =
        .ok (request, rest))
      (written : packets.flatten = (state.turn setting request).response.dump)
      (full : packets.Full) :
      Step setting state (.handle memory packets)
        { state with
          upstream := rest
          downstream := state.downstream ++ packets
          handled := state.handled ++ [state.turn setting request]
          serving := !(state.turn setting request).closes setting }
  | refuse {state : State} {memory : HttpParser} {stop : Stop}
      (serving : state.serving = true) (arrived : state.upstream ≠ [])
      (failed : HttpSession.recvRequest memory setting.requestBuffer state.upstream = .error stop) :
      Step setting state (.refuse memory) { state with serving := false }
  | recvResponse {state : State} {response : HttpResponse} {rest : Socket} (waits : state.Waits)
      (arrived : state.downstream ≠ [] ∨ state.serving = false)
      (got : HttpConnection.recvResponse setting.zlib setting.responseBuffer state.downstream =
        .ok (response, rest)) :
      Step setting state .recvResponse
        { state with received := state.received ++ [response], downstream := rest }
  | lose {state : State} {stop : Stop} (waits : state.Waits)
      (arrived : state.downstream ≠ [] ∨ state.serving = false)
      (failed : HttpConnection.recvResponse setting.zlib setting.responseBuffer state.downstream =
        .error stop) :
      Step setting state .lose { state with stopped := some stop }

/-- A new connection for the requests `todo`. -/
def start (todo : List HttpRequest) (m_dispatch : ServletDispatch Handle) : State where
  todo := todo
  sent := []
  received := []
  upstream := []
  downstream := []
  m_dispatch := m_dispatch
  operations := []
  handled := []
  serving := true
  stopped := none

def system (setting : Setting) (todo : List HttpRequest) (first : ServletDispatch Handle) :
    System State Event where
  initial state := state = start todo first
  step := Step setting

/-! ## What the ends may say -/

/-- A request that one read brings as it is. -/
structure Plain (setting : Setting) (request : HttpRequest) : Prop where
  sendable : ∀ uri_relaxed, request.Sendable uri_relaxed
  noBody : request.m_body = []
  websocket : request.m_websocket = true → request.m_close = true
  fits : request.dump.length ≤ setting.requestBuffer

/-- The packets bring the response, and the first one all that stands in front of the body. -/
structure Brings (setting : Setting) (response : HttpResponse) (packets : Socket) : Prop where
  sendable : response.Sendable
  held : response.m_body.length < 2 ^ 63
  packet : ∃ first later, packets = first :: later ∧ response.block.length ≤ first.length ∧
    first.length ≤ setting.responseBuffer ∧
    (later.flatten = [] ∨ 0 < toInt32 later.flatten.length)

/-- The servlets answer with responses that can be sent as they are. -/
def Allowed (setting : Setting) (state : State) : Event → Prop
  | .handle memory packets => ∀ request rest,
      HttpSession.recvRequest memory setting.requestBuffer state.upstream = .ok (request, rest) →
      Brings setting (state.turn setting request).response packets
  | _ => True

/-! ## One call -/

section Calls

open HttpSession RequestBlock

/-- What the server makes of a request without a body. -/
theorem same_readBlock {request : HttpRequest} {uri_relaxed : Bool}
    (sendable : request.Sendable uri_relaxed) (noBody : request.m_body = [])
    (websocket : request.m_websocket = true → request.m_close = true) :
    Same request (readBlock request).init := by
  let memory : HttpParser := { zeros with uri_relaxed := uri_relaxed }
  have accepted : request.Sendable memory.uri_relaxed := sendable
  have close := init_close accepted
  rw [init_of_close]
  refine ⟨rfl, rfl, rfl, rfl, rfl, ?_, noBody.symm,
    fun name other => find_readBlock accepted other (.inl noBody)⟩
  rw [close]
  split
  next speaks => exact (websocket speaks).symm
  next => rfl

theorem recvRequest_plain {setting : Setting} {request : HttpRequest}
    (small : setting.requestBuffer < 2 ^ 31) (plain : Plain setting request) (memory : HttpParser) :
    ∃ received, recvRequest memory setting.requestBuffer [request.dump] = .ok (received, []) ∧
      Same request received := by
  have sendable := plain.sendable memory.uri_relaxed
  have isBlock : request.dump = request.block := by
    rw [sendable.dump_eq, plain.noBody, List.append_nil]
  have whole : request.block.length ≤ request.dump.length := Nat.le_of_eq (congrArg _ isBlock.symm)
  exact ⟨_, recvRequest_dump small sendable List.flatten_singleton whole plain.fits,
    same_readBlock sendable plain.noBody plain.websocket⟩

end Calls

section Leaves

open HttpConnection HeaderBlock

/-- A body that is all that comes leaves nothing. -/
theorem recvBody_leaves {data body : Bytes} {socket rest : Socket} (full : socket.Full)
    (ok : recvBody ((data.length + socket.flatten.length : Nat) : Int) data socket =
      .ok (body, rest)) : rest = [] := by
  have left : ((data.length + socket.flatten.length : Nat) : Int) - data.length =
      socket.flatten.length := by omega
  rw [recvBody] at ok
  dsimp only at ok
  rw [left] at ok
  by_cases behind : socket.flatten = []
  · have nothing := HttpServer.eq_nil_of_flatten full behind
    have noMore : ¬0 < (socket.flatten.length : Int) := by simp [behind]
    rw [if_neg noMore] at ok
    split at ok
    next =>
      cases ok
      exact nothing
    next =>
      cases ok
      exact nothing
  · have more := List.length_pos_of_ne_nil behind
    have read := readFixSize_spec full (Nat.le_refl socket.flatten.length)
    rw [if_pos (Nat.le_refl _)] at read
    obtain ⟨later, received, flat, fullLater⟩ := read
    rw [if_pos (by omega), if_pos (by omega), Int.toNat_natCast, received] at ok
    dsimp only at ok
    split at ok
    next => cases ok
    next =>
      cases ok
      rw [List.drop_length] at flat
      exact HttpServer.eq_nil_of_flatten fullLater flat

/-- A response is all that is read of its bytes. -/
theorem recvResponse_leaves {zlib : ZlibStream} {buff_size : Nat} {sent received : HttpResponse}
    {more : Bytes} {later rest : Socket} (small : buff_size < 2 ^ 31) (sendable : sent.Sendable)
    (held : sent.m_body.length < 2 ^ 63) (arrives : more ++ later.flatten = sent.m_body)
    (fits : (sent.block ++ more).length ≤ buff_size) (full : later.Full)
    (ok : recvResponse zlib buff_size ((sent.block ++ more) :: later) = .ok (received, rest)) :
    rest = [] := by
  obtain ⟨parser, executed, response, noError, state, notChunked⟩ := execute_block sendable more
  have block : sent.block ≠ [] := by
    rw [HttpResponse.block]
    exact List.append_ne_nil_of_right_ne_nil _ (by decide)
  obtain ⟨isOk, isFinished⟩ :=
    HttpResponseParser.finished_of_first_final noError (state.trans HeaderBlock.doneState_eq)
  have header := recvHeader_eq ((sent.block ++ more) :: later).flatten.length later small fits
    block executed isOk isFinished
  have size := getContentLength_sent sendable held (congrArg HttpResponse.m_headers response)
  rw [← arrives, List.length_append] at size
  rw [recvResponse, header] at ok
  dsimp only at ok
  rw [notChunked, if_neg Bool.false_ne_true, size] at ok
  split at ok
  next => cases ok
  next body after got =>
    cases ok
    exact recvBody_leaves full got

theorem recvResponse_brings {setting : Setting} {response : HttpResponse} {packets : Socket}
    (small : setting.responseBuffer < 2 ^ 31) (brings : Brings setting response packets)
    (arrives : packets.flatten = response.dump) (full : packets.Full) :
    ∃ received, recvResponse setting.zlib setting.responseBuffer packets = .ok (received, []) ∧
      Matches response received := by
  obtain ⟨first, later, rfl, whole, fits, counts⟩ := brings.packet
  have result := recvResponse_sent setting.zlib small brings.sendable brings.held arrives whole fits
    full
  rw [if_pos counts] at result
  obtain ⟨received, rest, ok, matched⟩ := result
  rw [brings.sendable.dump_eq, List.flatten_cons] at arrives
  obtain ⟨more, rfl⟩ : response.block <+: first :=
    List.prefix_of_prefix_length_le (List.prefix_append _ _) (arrives ▸ List.prefix_append _ _) whole
  rw [List.append_assoc, List.append_cancel_left_eq] at arrives
  cases recvResponse_leaves small brings.sendable brings.held arrives fits full.tail ok
  exact ⟨received, ok, matched⟩

/-- At the end of the connection there is no response. -/
theorem recvResponse_nil (zlib : ZlibStream) (buff_size : Nat) :
    recvResponse zlib buff_size [] = .error .closed := by
  simp [recvResponse, recvHeader, read]

end Leaves

/-! ## The invariant -/

section Invariant

open HttpSession HttpConnection

/-- The servlets were handed the requests, in their order. -/
abbrev Handed (sent : List HttpRequest) (handled : List Turn) : Prop :=
  List.Forall₂ (fun request turn => Same request turn.request) sent handled

/-- The client received the responses of the servlets, in their order. -/
abbrev Returned (handled : List Turn) (received : List HttpResponse) : Prop :=
  List.Forall₂ (fun turn response => Matches turn.response response) handled received

/-- Where the exchange is, with what is in flight. -/
inductive Phase (setting : Setting) (state : State) : Prop where
  | idle (handed : Handed state.sent state.handled)
      (returned : Returned state.handled state.received)
      (up : state.upstream = []) (down : state.downstream = []) (goesOn : state.stopped = none)
  | asked {before : List HttpRequest} {request : HttpRequest}
      (last : state.sent = before ++ [request]) (plain : Plain setting request)
      (handed : Handed before state.handled) (returned : Returned state.handled state.received)
      (up : state.upstream = [request.dump]) (down : state.downstream = [])
      (stopped : ∀ stop, state.stopped = some stop → stop = .closed ∧ state.serving = false)
  | told {before : List Turn} {turn : Turn} (last : state.handled = before ++ [turn])
      (handed : Handed state.sent state.handled) (returned : Returned before state.received)
      (up : state.upstream = []) (brings : Brings setting turn.response state.downstream)
      (arrives : state.downstream.flatten = turn.response.dump) (full : state.downstream.Full)
      (goesOn : state.stopped = none)

structure Inv (setting : Setting) (todo : List HttpRequest) (state : State) : Prop where
  order : state.sent ++ state.todo = todo
  phase : Phase setting state
  serving : state.serving = state.handled.all fun turn => !turn.closes setting

variable {setting : Setting} {todo : List HttpRequest} {state next : State} {event : Event}

theorem forall₂_snoc {α β : Type} {related : α → β → Prop} {first : List α} {second : List β}
    {left : α} {right : β} (before : List.Forall₂ related first second)
    (last : related left right) : List.Forall₂ related (first ++ [left]) (second ++ [right]) :=
  List.rel_append before (.cons last .nil)

/-- The numbers of requests, turns and responses in each phase. -/
theorem Phase.counts (phase : Phase setting state) :
    (state.sent.length = state.received.length ∧ state.handled.length = state.received.length ∧
        state.upstream = [] ∧ state.downstream = []) ∨
      (state.sent.length = state.received.length + 1 ∧
        state.handled.length = state.received.length ∧ state.upstream ≠ [] ∧
        state.downstream = []) ∨
      (state.sent.length = state.received.length + 1 ∧
        state.handled.length = state.received.length + 1 ∧ state.upstream = [] ∧
        state.downstream ≠ []) := by
  cases phase with
  | idle handed returned up down _ =>
      have first := handed.length_eq
      have second := returned.length_eq
      exact .inl ⟨by omega, by omega, up, down⟩
  | asked last _ handed returned up down _ =>
      have first := handed.length_eq
      have second := returned.length_eq
      rw [last, List.length_append, List.length_singleton]
      exact .inr (.inl ⟨by omega, by omega, by simp [up], down⟩)
  | told last handed returned up brings _ _ _ =>
      have first := handed.length_eq
      have second := returned.length_eq
      rw [last, List.length_append, List.length_singleton] at first
      obtain ⟨packet, later, parts, -⟩ := brings.packet
      rw [last, List.length_append, List.length_singleton]
      exact .inr (.inr ⟨by omega, by omega, up, by simp [parts]⟩)

theorem Inv.start (todo : List HttpRequest) (m_dispatch : ServletDispatch Handle) :
    Inv setting todo (start todo m_dispatch) :=
  ⟨rfl, .idle .nil .nil rfl rfl rfl, rfl⟩

theorem Inv.sendRequest {request : HttpRequest} {later : List HttpRequest}
    (inv : Inv setting todo state) (plains : ∀ request ∈ todo, Plain setting request)
    (isNext : state.todo = request :: later) (goesOn : state.stopped = none)
    (free : state.sent.length = state.received.length) :
    Inv setting todo
      { state with
        todo := later
        sent := state.sent ++ [request]
        upstream := state.upstream ++ [request.dump] } where
  order := by
    rw [← inv.order, isNext, List.append_assoc, List.singleton_append]
  phase := by
    have plain : Plain setting request := by
      apply plains
      rw [← inv.order, isNext]
      simp
    cases inv.phase with
    | idle handed returned up down _ =>
        refine .asked rfl plain handed returned ?_ down ?_
        · rw [up, List.nil_append]
        · intro stop isStopped
          rw [goesOn] at isStopped
          cases isStopped
    | asked last _ handed returned _ _ _ =>
        have first := handed.length_eq
        have second := returned.length_eq
        rw [last, List.length_append, List.length_singleton] at free
        omega
    | told last handed returned _ _ _ _ _ =>
        have first := handed.length_eq
        have second := returned.length_eq
        rw [last, List.length_append, List.length_singleton] at first
        omega
  serving := inv.serving

theorem Inv.handle {memory : HttpParser} {packets rest : Socket} {request : HttpRequest}
    (inv : Inv setting todo state) (small : setting.requestBuffer < 2 ^ 31)
    (serving : state.serving = true) (arrived : state.upstream ≠ [])
    (got : recvRequest memory setting.requestBuffer state.upstream = .ok (request, rest))
    (written : packets.flatten = (state.turn setting request).response.dump)
    (full : packets.Full) (brings : Brings setting (state.turn setting request).response packets) :
    Inv setting todo
      { state with
        upstream := rest
        downstream := state.downstream ++ packets
        handled := state.handled ++ [state.turn setting request]
        serving := !(state.turn setting request).closes setting } where
  order := inv.order
  phase := by
    cases inv.phase with
    | idle _ _ up _ _ | told _ _ _ up _ _ _ _ => exact absurd up arrived
    | asked last plain handed returned up down stopped =>
        obtain ⟨received, ok, same⟩ := recvRequest_plain small plain memory
        rw [up, ok] at got
        cases got
        refine .told rfl ?_ returned rfl ?_ ?_ ?_ ?_
        · dsimp only
          rw [last]
          exact forall₂_snoc handed same
        · dsimp only
          rwa [down]
        · dsimp only
          rwa [down]
        · dsimp only
          rwa [down]
        · -- a client that has stopped has no server
          cases gone : state.stopped with
          | none => rfl
          | some stop =>
              have ended := (stopped stop gone).2
              rw [serving] at ended
              cases ended
  serving := by
    have before : (state.handled.all fun turn => !turn.closes setting) = true :=
      inv.serving.symm.trans serving
    dsimp only
    rw [List.all_append, before, Bool.true_and, List.all_cons, List.all_nil, Bool.and_true]

theorem Inv.recvResponse {response : HttpResponse} {rest : Socket} (inv : Inv setting todo state)
    (small : setting.responseBuffer < 2 ^ 31)
    (got : HttpConnection.recvResponse setting.zlib setting.responseBuffer state.downstream =
      .ok (response, rest)) :
    Inv setting todo
      { state with received := state.received ++ [response], downstream := rest } where
  order := inv.order
  phase := by
    cases inv.phase with
    | idle _ _ _ down _ | asked _ _ _ _ _ down _ =>
        rw [down, recvResponse_nil] at got
        cases got
    | told last handed returned up brings arrives full goesOn =>
        obtain ⟨received, ok, matched⟩ := recvResponse_brings small brings arrives full
        rw [ok] at got
        cases got
        refine .idle handed ?_ up rfl goesOn
        dsimp only
        rw [last]
        exact forall₂_snoc returned matched
  serving := inv.serving

theorem Inv.lose {stop : Stop} (inv : Inv setting todo state)
    (small : setting.responseBuffer < 2 ^ 31) (waits : state.Waits)
    (arrived : state.downstream ≠ [] ∨ state.serving = false)
    (failed : HttpConnection.recvResponse setting.zlib setting.responseBuffer state.downstream =
      .error stop) :
    Inv setting todo { state with stopped := some stop } where
  order := inv.order
  phase := by
    cases inv.phase with
    | idle handed returned _ _ _ =>
        have behind := waits.2
        rw [handed.length_eq, returned.length_eq] at behind
        exact absurd behind (Nat.lt_irrefl _)
    | asked last plain handed returned up down _ =>
        refine .asked last plain handed returned up down ?_
        rintro other ⟨⟩
        rw [down, recvResponse_nil] at failed
        cases failed
        exact ⟨rfl, arrived.resolve_left fun some => some down⟩
    | told _ _ _ _ brings arrives full _ =>
        obtain ⟨received, ok, -⟩ := recvResponse_brings small brings arrives full
        rw [ok] at failed
        cases failed
  serving := inv.serving

theorem Inv.step (inv : Inv setting todo state) (plains : ∀ request ∈ todo, Plain setting request)
    (small : setting.requestBuffer < 2 ^ 31 ∧ setting.responseBuffer < 2 ^ 31)
    (allowed : Allowed setting state event) (stepped : Step setting state event next) :
    Inv setting todo next := by
  cases stepped with
  | sendRequest isNext goesOn free => exact inv.sendRequest plains isNext goesOn free
  | operate =>
      refine ⟨inv.order, ?_, inv.serving⟩
      cases inv.phase with
      | idle handed returned up down goesOn => exact .idle handed returned up down goesOn
      | asked last plain handed returned up down stopped =>
          exact .asked last plain handed returned up down stopped
      | told last handed returned up brings arrives full goesOn =>
          exact .told last handed returned up brings arrives full goesOn
  | handle serving arrived got written full =>
      exact inv.handle small.1 serving arrived got written full (allowed _ _ got)
  | refuse serving arrived failed =>
      -- what is there is a request that can be received
      cases inv.phase with
      | idle _ _ up _ _ | told _ _ _ up _ _ _ _ => exact absurd up arrived
      | asked _ plain _ _ up _ _ =>
          obtain ⟨received, ok, -⟩ := recvRequest_plain small.1 plain _
          rw [up, ok] at failed
          cases failed
  | recvResponse _ _ got => exact inv.recvResponse small.2 got
  | lose waits arrived failed => exact inv.lose small.2 waits arrived failed

theorem inv_reached (plains : ∀ request ∈ todo, Plain setting request)
    (small : setting.requestBuffer < 2 ^ 31 ∧ setting.responseBuffer < 2 ^ 31)
    {first : ServletDispatch Handle}
    (reached : (system setting todo first).Reaches (Allowed setting) state) :
    Inv setting todo state := by
  apply reached.invariant
  · rintro state rfl
    exact Inv.start todo first
  · intro state event next _ inv allowed stepped
    exact inv.step plains small allowed stepped

/-! ### The servlets -/

/-- Each turn is that of the servlet which the dispatch of its step matched, and later turns see
what was done to the dispatch before earlier ones. -/
structure Matched (setting : Setting) (first : ServletDispatch Handle) (state : State) : Prop where
  m_dispatch : state.m_dispatch = first.run state.operations
  servlets : ∀ turn ∈ state.handled, turn.operations ≤ state.operations.length ∧
    (turn.left, turn.response) = HttpServer.respond setting.m_isKeepalive
      ((first.run (state.operations.take turn.operations)).getMatchedServlet setting.fnmatch
        turn.request.m_path) turn.request
  later : state.handled.Pairwise fun turn after => turn.operations ≤ after.operations

variable {first : ServletDispatch Handle}

theorem Matched.operate (matched : Matched setting first state)
    (operation : ServletDispatch.Operation Handle) :
    Matched setting first
      { state with
        m_dispatch := state.m_dispatch.apply operation
        operations := state.operations ++ [operation] } where
  m_dispatch := by
    rw [matched.m_dispatch, ServletDispatch.run, ServletDispatch.run, List.foldl_append]
    rfl
  servlets turn member := by
    obtain ⟨before, servlet⟩ := matched.servlets turn member
    dsimp only
    rw [List.length_append, List.take_append_of_le_length before]
    exact ⟨Nat.le_add_right_of_le before, servlet⟩
  later := matched.later

theorem Matched.handle (matched : Matched setting first state) {upstream downstream : Socket}
    {serving : Bool} (request : HttpRequest) :
    Matched setting first
      { state with
        upstream
        downstream
        handled := state.handled ++ [state.turn setting request]
        serving } where
  m_dispatch := matched.m_dispatch
  servlets turn member := by
    rcases List.mem_append.mp member with before | isLast
    · exact matched.servlets turn before
    · cases List.mem_singleton.mp isLast
      refine ⟨Nat.le_refl _, ?_⟩
      dsimp only [State.turn]
      rw [List.take_length, ← matched.m_dispatch]
      rfl
  later := by
    rw [List.pairwise_append]
    refine ⟨matched.later, List.pairwise_singleton _ _, ?_⟩
    intro turn member last isLast
    cases List.mem_singleton.mp isLast
    exact (matched.servlets turn member).1

theorem Matched.step (matched : Matched setting first state)
    (stepped : Step setting state event next) : Matched setting first next := by
  cases stepped with
  | operate operation => exact matched.operate operation
  | handle serving arrived got written full => exact matched.handle _
  | sendRequest => exact ⟨matched.m_dispatch, matched.servlets, matched.later⟩
  | refuse => exact ⟨matched.m_dispatch, matched.servlets, matched.later⟩
  | recvResponse => exact ⟨matched.m_dispatch, matched.servlets, matched.later⟩
  | lose => exact ⟨matched.m_dispatch, matched.servlets, matched.later⟩

theorem matched_reached {allowed : State → Event → Prop}
    (reached : (system setting todo first).Reaches allowed state) :
    Matched setting first state := by
  apply reached.invariant
  · rintro state rfl
    exact ⟨rfl, fun _ member => absurd member List.not_mem_nil, .nil⟩
  · intro state event next _ matched _ stepped
    exact matched.step stepped

/-! ## The result -/

/-- What a run brings about: the servlets are handed the requests one by one, in their order, each
the one that the dispatch matches then, and the client receives their responses in the same order;
a request that has no response yet is in flight with nothing else, the loop of the server has ended
exactly where a turn closes the connection, and a client is left without its response by nothing but
that. -/
structure Exchanged (setting : Setting) (todo : List HttpRequest)
    (first : ServletDispatch Handle) (state : State) : Prop where
  order : state.sent ++ state.todo = todo
  handed : Handed (state.sent.take state.handled.length) state.handled
  matched : Matched setting first state
  returned : Returned (state.handled.take state.received.length) state.received
  counts : state.received.length ≤ state.handled.length ∧
    state.handled.length ≤ state.sent.length ∧ state.sent.length ≤ state.received.length + 1
  inFlight : state.received.length < state.sent.length →
    (state.upstream ≠ [] ∧ state.downstream = []) ∨ (state.upstream = [] ∧ state.downstream ≠ [])
  nothing : state.received.length = state.sent.length →
    state.upstream = [] ∧ state.downstream = []
  serving : state.serving = state.handled.all fun turn => !turn.closes setting
  lost : ∀ stop, state.stopped = some stop →
    stop = .closed ∧ state.serving = false ∧ state.handled.length < state.sent.length

theorem Inv.outcome (inv : Inv setting todo state) (matched : Matched setting first state) :
    Exchanged setting todo first state where
  order := inv.order
  matched := matched
  handed := by
    cases inv.phase with
    | idle handed _ _ _ _ | told _ handed _ _ _ _ _ _ =>
        rwa [← handed.length_eq, List.take_length]
    | asked last _ handed _ _ _ _ => rwa [last, ← handed.length_eq, List.take_left]
  returned := by
    cases inv.phase with
    | idle _ returned _ _ _ | asked _ _ _ returned _ _ _ =>
        rwa [← returned.length_eq, List.take_length]
    | told last _ returned _ _ _ _ _ => rwa [last, ← returned.length_eq, List.take_left]
  counts := by
    have counts := inv.phase.counts
    omega
  inFlight := by
    intro waits
    rcases inv.phase.counts with idle | asked | told
    · omega
    · exact .inl asked.2.2
    · exact .inr told.2.2
  nothing := by
    intro free
    rcases inv.phase.counts with idle | asked | told
    · exact idle.2.2
    · omega
    · omega
  serving := inv.serving
  lost := by
    intro stop isStopped
    cases inv.phase with
    | idle _ _ _ _ goesOn | told _ _ _ _ _ _ _ goesOn =>
        rw [goesOn] at isStopped
        cases isStopped
    | asked last _ handed _ _ _ stopped =>
        have before := handed.length_eq
        have gone := stopped stop isStopped
        refine ⟨gone.1, gone.2, ?_⟩
        rw [last, List.length_append, List.length_singleton]
        omega

/-- Whatever servlets are added and deleted meanwhile, no request and no response is lost,
repeated or taken for another one. -/
theorem exchanged (plains : ∀ request ∈ todo, Plain setting request)
    (small : setting.requestBuffer < 2 ^ 31 ∧ setting.responseBuffer < 2 ^ 31)
    (reached : (system setting todo first).Reaches (Allowed setting) state) :
    Exchanged setting todo first state :=
  (inv_reached plains small reached).outcome (matched_reached reached)

end Invariant

/-! ### A request for a page that is not there -/

def quiet : Setting := ⟨true, fun _ _ => 1, ⟨id, id⟩, 4096, 4096⟩

def visit : HttpRequest where
  m_close := false
  m_path := ascii "/a"

theorem visit_plain : Plain quiet visit where
  sendable := by
    intro uri_relaxed
    refine ⟨by decide, ?_, ?_, ?_, by decide, by decide, ?_, ?_⟩
    · show RequestLine.accepts (Http11.Grammar.relative_part uri_relaxed) (ascii "/a")
      cases uri_relaxed <;> decide +kernel
    · show RequestLine.accepts (RequestLine.queryPart uri_relaxed) []
      cases uri_relaxed <;> decide +kernel
    · show RequestLine.accepts (RequestLine.queryPart uri_relaxed) []
      cases uri_relaxed <;> decide +kernel
    · exact fun header member => absurd member List.not_mem_nil
    · exact fun header member => absurd member List.not_mem_nil
  noBody := rfl
  websocket := by
    intro speaks
    cases speaks
  fits := by decide

/-- The client has sent its request. -/
def visiting : State :=
  { start [visit] .new with
    todo := []
    sent := [visit]
    upstream := [visit.dump] }

/-- The servlets have answered it. -/
def missing : Turn := visiting.turn quiet (RequestBlock.readBlock visit).init

def answering : State :=
  { visiting with
    upstream := []
    downstream := [missing.response.dump]
    handled := [missing]
    serving := !missing.closes quiet }

theorem missing_brings : Brings quiet missing.response [missing.response.dump] where
  sendable := by
    refine ⟨by decide, by decide, by decide, by decide, by decide, ?_⟩
    have headers : missing.response.m_headers =
        [(ascii "Content-Type", ascii "text/html"), (ascii "Server", ascii "exhy/1.0.0")] := by
      decide
    rw [headers]
    intro header member
    simp only [List.mem_cons, List.not_mem_nil, or_false] at member
    rcases member with rfl | rfl
    · exact ⟨by decide, by decide, by decide, by decide, by decide⟩
    · exact ⟨by decide, by decide, by decide, by decide, by decide⟩
  held := by decide +kernel
  packet := ⟨missing.response.dump, [], rfl, by decide +kernel, by decide +kernel, .inl rfl⟩

theorem exchanged_answering : Exchanged quiet [visit] .new answering := by
  have received : HttpSession.recvRequest HttpSession.zeros 4096 [visit.dump] =
      .ok ((RequestBlock.readBlock visit).init, []) :=
    HttpSession.recvRequest_dump (by decide) (visit_plain.sendable _) List.flatten_singleton
      (by decide) (by decide)
  have sends : Step quiet (start [visit] .new) .sendRequest visiting := .sendRequest rfl rfl rfl
  have full : Socket.Full [missing.response.dump] := by
    intro packet member
    cases List.mem_singleton.mp member
    exact List.append_ne_nil_of_left_ne_nil (by decide) _
  have serves : visiting.serving = true := rfl
  have arrived : visiting.upstream ≠ [] := List.cons_ne_nil _ _
  have answers : Step quiet visiting (.handle HttpSession.zeros [missing.response.dump]) answering :=
    .handle serves arrived received List.flatten_singleton full
  have allowed : Allowed quiet (start [visit] .new) .sendRequest := trivial
  have sent : (system quiet [visit] .new).Reaches (Allowed quiet) visiting :=
    .step (.initial rfl) allowed sends
  have answered : (system quiet [visit] .new).Reaches (Allowed quiet) answering := by
    refine .step sent ?_ answers
    intro request rest got
    cases received.symm.trans got
    exact missing_brings
  apply exchanged ?_ ⟨by decide, by decide⟩ answered
  intro request member
  cases List.mem_singleton.mp member
  exact visit_plain

end Exchange

end Exhy.Http
