import Exhy.Http.Fragmentation
import Mathlib.Data.UInt

/-!
# The length of the body of a request

A request announces its body as a `uint64_t`; `recvRequest` narrows it to an `int` and does
not ask for the configured maximum.  Whether the body is the announced one depends on the
announced length, on the maximum and on how many bytes come, and not on where the reads end.
-/

namespace Exhy.Http

open Library

namespace HttpRequestParser

/-! ## What the header leaves alone -/

section Callbacks

variable {parser next : HttpRequestParser} {buffer : Bytes}

/-- The callbacks leave the body to the session. -/
theorem callback_m_body {fpc : Nat} {action : Http11.Action} {data after : Parsed}
    (called : parser.mParser.callback buffer fpc data action = some after) :
    after.m_data.m_body = data.m_data.m_body := by
  cases action with
  | write_value =>
      simp only [HttpParser.callback, Parsed.on_request_http_field] at called
      split at called
      next =>
        cases called
        rfl
      next =>
        split at called
        next =>
          cases called
          rfl
        next => cases called
  | request_method =>
      cases called
      rw [Parsed.on_request_method]
      split <;> rfl
  | fragment | query_string | request_path =>
      obtain ⟨text, -, rfl⟩ := Option.map_eq_some_iff.mp called
      rfl
  | http_version =>
      cases called
      rw [Parsed.on_request_version]
      split
      · rfl
      · split <;> rfl
  | mark | start_field | write_field | start_value | start_query | request_uri | done | xml
  | json =>
      cases called
      rfl

theorem run_m_body {events : List (Nat × Http11.Action)}
    (ran : run buffer events parser = some next) :
    next.m_data.m_body = parser.m_data.m_body := by
  induction events generalizing parser with
  | nil =>
      cases ran
      rfl
  | cons event later ih =>
      rw [run] at ran
      split at ran
      · cases ran
      · next called => exact (ih ran).trans (callback_m_body called)

theorem execute_m_body {data left : Bytes} (executed : parser.execute data = some (next, left)) :
    next.m_data.m_body = parser.m_data.m_body := by
  rw [execute, http_parser_execute] at executed
  split at executed
  next => cases executed
  next called =>
    cases executed
    split at called
    next =>
      cases called
      rfl
    next =>
      dsimp only at called
      rw [exec_eq] at called
      split at called
      next => cases called
      next ran =>
        cases called
        obtain ⟨after, isRun, same⟩ := Option.map_eq_some_iff.mp ran
        cases same
        have body := run_m_body isRun
        exact body

theorem execute_suffix {data left : Bytes} (executed : parser.execute data = some (next, left)) :
    left <:+ data := by
  rw [execute] at executed
  split at executed
  · cases executed
  · cases executed
    exact List.drop_suffix _ _

end Callbacks

end HttpRequestParser

namespace HttpSession

/-- Behind the header: an empty body, and the bytes of the stream that the parser has not
taken, in the buffer and in the socket. -/
theorem recvHeader_rest {size fuel : Nat} {parser next : HttpRequestParser} {data left : Bytes}
    {socket later : Socket} (full : socket.Full)
    (received : recvHeader size fuel parser data socket = .ok (next, left, later)) :
    next.m_data.m_body = parser.m_data.m_body ∧
      left ++ later.flatten <:+ data ++ socket.flatten ∧ later.Full := by
  induction fuel generalizing parser data socket with
  | zero => cases received
  | succ fuel ih =>
      by_cases room : 0 < size - data.length
      case neg =>
        have none : (read (size - data.length) socket).1 = [] := by
          rw [Nat.eq_zero_of_not_pos room]
          cases socket <;> rfl
        rw [recvHeader] at received
        simp only [none, if_true] at received
        cases received
      case pos =>
        have taken := read_spec full room
        rw [recvHeader] at received
        generalize read (size - data.length) socket = got at taken received
        obtain ⟨bytes, after⟩ := got
        obtain ⟨parts, -, fullAfter, -⟩ := taken
        dsimp only at parts fullAfter received
        split at received
        next => cases received
        next =>
          split at received
          next => cases received
          next parsed kept executed =>
            have body := HttpRequestParser.execute_m_body executed
            have suffix : kept ++ after.flatten <:+ data ++ socket.flatten := by
              rw [← parts, ← List.append_assoc]
              apply List.suffix_append_self_iff.mpr
              exact HttpRequestParser.execute_suffix executed
            split at received
            next => cases received
            next =>
              split at received
              next => cases received
              next =>
                split at received
                next =>
                  cases received
                  exact ⟨body, suffix, fullAfter⟩
                next =>
                  obtain ⟨same, rest, fullLater⟩ := ih fullAfter received
                  exact ⟨same.trans body, rest.trans suffix, fullLater⟩

theorem init_m_body (request : HttpRequest) : request.init.m_body = request.m_body := by
  rw [HttpRequest.init]
  split <;> rfl

/-! ## The body -/

/-- A request whose body is the announced bytes, within the maximum, or none at all. -/
def BodyKept (max_body_size announced : UInt64) (behind : Bytes) :
    Except Stop (HttpRequest × Socket) → Prop
  | .ok (request, _) =>
      announced ≤ max_body_size ∧ announced.toNat ≤ behind.length ∧
        request.m_body = behind.take announced.toNat
  | .error stop => stop = .closed

instance (max_body_size announced : UInt64) (behind : Bytes) :
    (result : Except Stop (HttpRequest × Socket)) →
      Decidable (BodyKept max_body_size announced behind result)
  | .ok (request, _) => inferInstanceAs (Decidable (announced ≤ max_body_size ∧
      announced.toNat ≤ behind.length ∧ request.m_body = behind.take announced.toNat))
  | .error stop => inferInstanceAs (Decidable (stop = .closed))

/-- The length survives the conversion and the maximum allows it, or it is taken for a length
that more bytes than come would have. -/
def Announces (max_body_size announced : UInt64) (available : Nat) : Prop :=
  announced ≤ max_body_size ∧ announced.toNat < 2 ^ 31 ∨
    announced.toNat % 2 ^ 32 < 2 ^ 31 ∧ available < announced.toNat % 2 ^ 32

/-- The body that is cut from the bytes behind the header is the announced one exactly when
the announced length is one that `recvRequest` can keep. -/
theorem bodyOf_kept_iff {max_body_size announced : UInt64} {request : HttpRequest}
    {behind : Bytes} (fresh : request.m_body = []) (later : Socket) :
    BodyKept max_body_size announced behind
        ((bodyOf (toInt32 announced.toNat) request behind).map fun request => (request, later)) ↔
      Announces max_body_size announced behind.length := by
  have value := toInt32_eq announced.toNat
  rw [bodyOf]
  split
  next positive =>
    -- the low half of the length is what the body gets
    have low : toInt32 announced.toNat = (announced.toNat % 2 ^ 32 : Nat) ∧
        announced.toNat % 2 ^ 32 < 2 ^ 31 := by
      split at value <;> omega
    rw [low.1, Int.toNat_natCast]
    split
    next enough =>
      show _ ∧ _ ∧ (HttpRequest.init _).m_body = _ ↔ _
      rw [init_m_body]
      constructor
      · rintro ⟨allowed, come, same⟩
        have lengths := congrArg List.length same
        rw [List.length_take, List.length_take] at lengths
        exact .inl ⟨allowed, by omega⟩
      · intro announces
        rcases announces with ⟨allowed, small⟩ | ⟨-, short⟩
        · have whole : announced.toNat % 2 ^ 32 = announced.toNat := by omega
          rw [whole] at enough ⊢
          exact ⟨allowed, by omega, rfl⟩
        · omega
    next short =>
      constructor
      · exact fun _ => .inr ⟨low.2, by omega⟩
      · exact fun _ => rfl
  next negative =>
    show _ ∧ _ ∧ (HttpRequest.init _).m_body = _ ↔ _
    rw [init_m_body, fresh]
    constructor
    · rintro ⟨allowed, come, same⟩
      have lengths := congrArg List.length same
      rw [List.length_take, List.length_nil] at lengths
      exact .inl ⟨allowed, by omega⟩
    · intro announces
      have zero : announced.toNat = 0 ∨ behind.length < announced.toNat % 2 ^ 32 ∧
          announced.toNat % 2 ^ 32 < 2 ^ 31 := by
        rcases announces with ⟨-, small⟩ | ⟨half, short⟩
        · left
          split at value <;> omega
        · exact .inr ⟨short, half⟩
      rcases zero with zero | ⟨short, half⟩
      · have allowed : announced ≤ max_body_size := by
          rw [UInt64.le_iff_toNat_le, zero]
          exact Nat.zero_le _
        rw [zero]
        exact ⟨allowed, Nat.zero_le _, rfl⟩
      · rw [if_pos half] at value
        omega

/-- However the bytes behind the header are split, the body of a request is the announced one
exactly when the announced length is one that `recvRequest` can keep. -/
theorem recvRequest_body_iff {memory : HttpParser} {buff_size : Nat} {socket later : Socket}
    {parser : HttpRequestParser} {data : Bytes} (max_body_size : UInt64) (full : socket.Full)
    (received : recvHeader buff_size (socket.flatten.length + 1) (.init memory) [] socket =
      .ok (parser, data, later)) :
    BodyKept max_body_size parser.getContentLength (data ++ later.flatten)
        (recvRequest memory buff_size socket) ↔
      Announces max_body_size parser.getContentLength (data ++ later.flatten).length := by
  obtain ⟨fresh, -, fullLater⟩ := recvHeader_rest full received
  rw [recvRequest_of_header received, recvBody_eq _ _ _ fullLater]
  exact bodyOf_kept_iff fresh _

/-- A body of three bytes, two of them with the header. -/
def announced : Socket :=
  [ascii "POST / HTTP/1.1\r\ncontent-length: 3\r\n\r\nab", ascii "cd"]

theorem recvRequest_body_iff_announced :
    BodyKept (64 * 1024 * 1024) 3 (ascii "abcd") (recvRequest zeros 4096 announced) := by
  have parts : (recvHeader 4096 (announced.flatten.length + 1) (.init zeros) [] announced).map
      (fun (parser, data, later) => (parser.getContentLength, data ++ later.flatten)) =
        .ok (3, ascii "abcd") := by
    decide +kernel
  cases received : recvHeader 4096 (announced.flatten.length + 1) (.init zeros) [] announced with
  | error stop =>
      rw [received] at parts
      cases parts
  | ok result =>
      obtain ⟨parser, data, later⟩ := result
      rw [received] at parts
      obtain ⟨length, behind⟩ := Prod.mk.inj (Except.ok.inj parts)
      have kept := recvRequest_body_iff (64 * 1024 * 1024) (by decide) received
      rw [length, behind] at kept
      exact kept.mpr (.inl ⟨by decide, by decide⟩)

/-- A length past the maximum and past `int`: the request comes with one byte. -/
theorem body_narrowed :
    ¬ BodyKept (64 * 1024 * 1024) (2 ^ 32 + 1) (ascii "a") (recvRequest zeros 4096
      [ascii "POST / HTTP/1.1\r\ncontent-length: 4294967297\r\n\r\na"]) := by
  decide +kernel

end HttpSession

end Exhy.Http
