import Exhy.Http.HttpResponseParser

/-!
# Calls of the parser of responses

What the actions read when the registers hold positions of the buffer, and what a call leaves
when the run of the machine is known.
-/

namespace Exhy.Http

open Library Machine Httpclient

theorem text_prefix (part rest : Bytes) : text (part ++ rest) part.length = some part := by
  rw [text, if_neg (by omega), Int.toNat_natCast, List.take_left]

theorem drop_behind {buffer part rest : Bytes} {place : Nat} (here : buffer.drop place = part ++ rest) :
    buffer.drop (place + part.length) = rest := by
  rw [← List.drop_drop, here, List.drop_left]

namespace HttpResponseParser

/-- The registers lie in what has been read. -/
structure Inside (place : Nat) (parser : HttpclientParser) : Prop where
  nread : parser.nread = 0
  mark : parser.mark ≤ place
  field_start : parser.field_start ≤ place
  field_pos : 0 ≤ parser.field_len
  field_len : parser.field_len ≤ place

section Calls

variable {buffer rest : Bytes} {place : Nat} {parser : HttpResponseParser}

theorem Inside.mono {more : Nat} {registers : HttpclientParser} (inside : Inside place registers)
    (further : place ≤ more) : Inside more registers where
  nread := inside.nread
  mark := Nat.le_trans inside.mark further
  field_start := Nat.le_trans inside.field_start further
  field_pos := inside.field_pos
  field_len := Int.le_trans inside.field_len (Int.ofNat_le.mpr further)

theorem effect_write_value {name value after : Bytes} (nonempty : name ≠ [])
    (field : buffer.drop parser.mParser.field_start = name ++ rest)
    (flen : parser.mParser.field_len = name.length)
    (start : buffer.drop parser.mParser.mark = value ++ after)
    (vlen : place = parser.mParser.mark + value.length) :
    effect buffer place .write_value parser =
      some { parser with m_data := parser.m_data.setHeader name value } := by
  have positive : (name.length : Int) ≠ 0 := by
    have := List.length_pos_of_ne_nil nonempty
    omega
  have length : (place : Int) - parser.mParser.mark = value.length := by omega
  simp only [effect, on_response_http_field, flen, if_neg positive, field, start, length,
    text_prefix]

/-- A call of a parser that starts anew. -/
theorem execute_of_exec {chunck : Bool} {next : HttpResponseParser} {cs : List (Machine Action)}
    {stop : Nat} (fresh : chunck = true ∨ parser.mParser = {})
    (ran : exec (effect buffer) breaks buffer 0 [Grammar.main] { parser with mParser := {} } =
      some (next, cs, stop + 1))
    (inside : Inside stop next.mParser) (within : stop < buffer.length) :
    parser.execute buffer chunck =
      some (next.registers ({ · with cs := cs, nread := stop + 1 }), buffer.drop (stop + 1)) := by
  have mark := inside.mark
  have field_start := inside.field_start
  have field_len := inside.field_len
  have checks : next.mParser.mark < buffer.length ∧
      (0 ≤ next.mParser.field_len ∧ next.mParser.field_len ≤ buffer.length) ∧
      next.mParser.field_start < buffer.length :=
    ⟨by omega, ⟨inside.field_pos, by omega⟩, by omega⟩
  have start : (if chunck then { parser with mParser := {} } else parser) =
      { parser with mParser := {} } := by
    rcases fresh with rfl | fresh
    · rfl
    · rw [← fresh, ite_self]
  rw [execute, start]
  simp only [httpclient_parser_execute, registers, ran, checks, inside.nread, Nat.zero_add,
    and_self, if_true]

/-- A parser in the state behind a last line feed is finished. -/
theorem finished_of_first_final (noError : parser.m_error = 0)
    (isFinal : parser.mParser.cs = httpclient_parser_first_final) :
    parser.hasError = false ∧ parser.isFinished ≠ 0 := by
  have alive : httpclient_parser_first_final ≠ [] := by
    intro isError
    have final := first_final_ends.1
    rw [isError] at final
    cases final
  constructor
  · simp [hasError, httpclient_parser_has_error, noError, isFinal, alive]
  · simp [isFinished, httpclient_parser_finish, httpclient_parser_has_error,
      httpclient_parser_is_finished, isFinal, alive]

/-- The parser leaves the body to the connection. -/
theorem effect_m_body {buffer : Bytes} {fpc : Nat} {action : Action}
    {parser next : HttpResponseParser} (done : effect buffer fpc action parser = some next) :
    next.m_data.m_body = parser.m_data.m_body := by
  cases action with
  | write_value =>
      simp only [effect, on_response_http_field] at done
      split at done
      next =>
        cases done
        rfl
      next =>
        split at done
        next =>
          cases done
          rfl
        next => cases done
  | reason_phrase =>
      obtain ⟨reason, -, rfl⟩ := Option.map_eq_some_iff.mp done
      rfl
  | http_version =>
      simp only [effect, Option.some.injEq, on_response_version] at done
      rw [← done]
      split
      · rfl
      · split <;> rfl
  | mark | start_field | write_field | start_value | write_content_len | write_connection_close
  | status_code | chunk_size | trans_chunked | done =>
      cases done
      rfl

theorem execute_m_body {data left : Bytes} {chunck : Bool} {next : HttpResponseParser}
    (executed : parser.execute data chunck = some (next, left)) :
    next.m_data.m_body = parser.m_data.m_body := by
  have start : (if chunck then { parser with mParser := {} } else parser).m_data = parser.m_data := by
    split <;> rfl
  simp only [execute, httpclient_parser_execute] at executed
  generalize (if chunck then { parser with mParser := {} } else parser) = fresh at start executed
  split at executed
  next => cases executed
  next called =>
    split at called
    next => cases called
    next ran =>
      split at called
      next =>
        cases called
        cases executed
        exact exec_keeps (fun other => other.m_data.m_body = parser.m_data.m_body)
          (fun _ _ _ _ done same => (effect_m_body done).trans same) ran
          (congrArg HttpResponse.m_body start)
      next => cases called

end Calls

end HttpResponseParser

end Exhy.Http
