import Exhy.Http.Session
import Exhy.Library.Scanner

/-!
# Reading a request at positions of the stream

The parser keeps offsets into the buffer of the current call.  Here they are positions in
the whole stream, which no call resets, and each callback reads a stretch of the stream.  A
call on a part of the stream agrees with this reader as long as every stretch that is read
lies in one part.
-/

namespace Exhy.Http

open Library

namespace HttpRequestParser

open Machine

/-- The action with `fbreak`. -/
def breaks (action : Http11.Action) : Bool := action = .done

/-- The actions of a run of the machine. -/
def run (buffer : Bytes) : List (Nat × Http11.Action) → HttpRequestParser →
    Option HttpRequestParser
  | [], parser => some parser
  | (fpc, action) :: later, parser =>
      match parser.mParser.callback buffer fpc parser.toParsed action with
      | none => none
      | some data => run buffer later ⟨data, parser.mParser.register fpc action⟩

theorem run_append (buffer : Bytes) (first second : List (Nat × Http11.Action))
    (parser : HttpRequestParser) :
    run buffer (first ++ second) parser = (run buffer first parser).bind (run buffer second) := by
  induction first generalizing parser with
  | nil => rfl
  | cons event later ih =>
      rw [List.cons_append, run, run]
      split
      · rfl
      · exact ih _

theorem perform_eq (buffer : Bytes) (fpc : Nat) (actions : List Http11.Action)
    (parser : HttpRequestParser) :
    perform buffer fpc actions parser =
      (run buffer ((untilBreak breaks actions).map fun action => (fpc, action)) parser).map
        fun parser => (parser, actions.any breaks) := by
  induction actions generalizing parser with
  | nil => rfl
  | cons action later ih =>
      rw [perform, untilBreak, List.map_cons, run]
      cases parser.mParser.callback buffer fpc parser.toParsed action with
      | none => rfl
      | some data =>
          by_cases last : action = .done
          · simp [last, breaks, run]
          · have goes : breaks action = false := decide_eq_false last
            simp [last, goes, ih]

theorem exec_eq (buffer rest : Bytes) (p : Nat) (cs : List (Machine Http11.Action))
    (parser : HttpRequestParser) :
    exec buffer rest p cs parser =
      (run buffer (scan breaks rest p cs).events parser).map fun parser =>
        (parser, (scan breaks rest p cs).state, (scan breaks rest p cs).position) := by
  induction rest generalizing p cs parser with
  | nil => rfl
  | cons byte rest ih =>
      rw [exec, scan]
      cases step cs byte with
      | none => rfl
      | some result =>
          obtain ⟨next, actions⟩ := result
          dsimp only
          rw [perform_eq]
          cases broke : actions.any breaks with
          | true =>
              rw [if_pos rfl]
              cases run buffer ((untilBreak breaks actions).map fun action => (p, action)) parser <;>
                rfl
          | false =>
              rw [if_neg Bool.false_ne_true, Scan.after, run_append]
              cases run buffer ((untilBreak breaks actions).map fun action => (p, action)) parser with
              | none => rfl
              | some parser => exact ih (p + 1) next parser

/-- The actions leave the state of the machine and the count of bytes to the call. -/
theorem run_keeps {buffer : Bytes} {events : List (Nat × Http11.Action)}
    {parser next : HttpRequestParser} (ran : run buffer events parser = some next) :
    next.mParser.cs = parser.mParser.cs ∧ next.mParser.nread = parser.mParser.nread := by
  induction events generalizing parser with
  | nil =>
      cases ran
      exact ⟨rfl, rfl⟩
  | cons event later ih =>
      obtain ⟨fpc, action⟩ := event
      rw [run] at ran
      split at ran
      · cases ran
      · obtain ⟨cs, nread⟩ := ih ran
        rw [cs, nread]
        cases action with
        | done =>
            dsimp only [HttpParser.register]
            split <;> exact ⟨rfl, rfl⟩
        | _ => exact ⟨rfl, rfl⟩

/-- The parser as each call makes it ready. -/
def reset (parser : HttpRequestParser) : HttpRequestParser :=
  { parser with mParser :=
      { parser.mParser with nread := 0, mark := 0, field_len := 0, field_start := 0 } }

/-- A call runs the machine over the buffer and keeps its state. -/
theorem execute_eq {parser : HttpRequestParser} {buffer : Bytes} (nonempty : buffer ≠ [])
    (going : parser.mParser.cs ≠ []) :
    parser.execute buffer =
      (run buffer (scan breaks buffer 0 parser.mParser.cs).events parser.reset).map fun next =>
        ({ next with mParser :=
            { next.mParser with
              cs := (scan breaks buffer 0 parser.mParser.cs).state
              nread := (scan breaks buffer 0 parser.mParser.cs).position } },
          buffer.drop (scan breaks buffer 0 parser.mParser.cs).position) := by
  have whole := exec_eq buffer buffer 0 parser.mParser.cs parser.reset
  rw [execute, http_parser_execute, if_neg nonempty]
  cases ran : run buffer (scan breaks buffer 0 parser.mParser.cs).events parser.reset with
  | none =>
      rw [ran] at whole
      dsimp only [reset] at whole ⊢
      rw [whole]
      rfl
  | some next =>
      obtain ⟨cs, nread⟩ := run_keeps ran
      have noError : http_parser_has_error next.mParser = false := by
        rw [http_parser_has_error, cs]
        exact decide_eq_false going
      have zero : next.mParser.nread = 0 := nread
      rw [ran] at whole
      dsimp only [reset] at whole ⊢
      rw [whole]
      simp [noError, zero]

end HttpRequestParser

/-- The registers of the parser as positions in the stream.  `field` is the stretch that
`field_len` is the length of. -/
structure Marks where
  mark : Nat := 0
  field_start : Nat := 0
  field : Nat × Nat := (0, 0)
  query_start : Option Nat := none
  deriving DecidableEq

namespace Marks

open Machine

def register (marks : Marks) (place : Nat) : Http11.Action → Marks
  | .mark | .start_value => { marks with mark := place }
  | .start_field => { marks with field_start := place }
  | .write_field => { marks with field := (marks.field_start, place) }
  | .start_query => { marks with query_start := some place }
  | .write_value | .request_method | .request_uri | .fragment | .query_string | .http_version
  | .request_path | .done | .xml | .json => marks

/-- The stretch of the stream that an action reads: its first position and its last. -/
def reads (marks : Marks) (place : Nat) : Http11.Action → Option (Nat × Nat)
  | .write_value => some (min (min marks.field_start marks.field.1) marks.mark,
      max place (marks.field_start + (marks.field.2 - marks.field.1)))
  | .request_method | .fragment | .http_version | .request_path => some (marks.mark, place)
  | .query_string => some (marks.query_start.getD 0, place)
  | .mark | .start_field | .write_field | .start_value | .start_query | .request_uri | .done
  | .xml | .json => none

/-- The callbacks on the stream; `memory` is the `query_start` of a parser that has none. -/
def callback (marks : Marks) (memory : Nat) (stream : Bytes) (place : Nat) (data : Parsed) :
    Http11.Action → Option Parsed
  | .write_value => data.on_request_http_field (stream.drop marks.field_start)
      ((marks.field.2 : Int) - marks.field.1) (stream.drop marks.mark) (place - marks.mark)
  | .request_method => some (data.on_request_method (stream.drop marks.mark))
  | .fragment => data.on_request_fragment (stream.drop marks.mark) (place - marks.mark)
  | .query_string => data.on_request_query (stream.drop (marks.query_start.getD memory))
      (place - marks.query_start.getD memory)
  | .http_version => some (data.on_request_version (stream.drop marks.mark) (place - marks.mark))
  | .request_path => data.on_request_path (stream.drop marks.mark) (place - marks.mark)
  | .mark | .start_field | .write_field | .start_value | .start_query | .request_uri | .done
  | .xml | .json => some data

/-- The registers after some actions. -/
def after (marks : Marks) (events : List (Nat × Http11.Action)) : Marks :=
  events.foldl (fun marks event => marks.register event.1 event.2) marks

/-- What the callbacks of some actions make of the request. -/
def follow (memory : Nat) (stream : Bytes) :
    List (Nat × Http11.Action) → Marks → Parsed → Option Parsed
  | [], _, data => some data
  | (place, action) :: later, marks, data =>
      match marks.callback memory stream place data action with
      | none => none
      | some data => follow memory stream later (marks.register place action) data

/-- The stretches of the stream that some actions read. -/
def tokens : List (Nat × Http11.Action) → Marks → List (Nat × Nat)
  | [], _ => []
  | (place, action) :: later, marks =>
      (marks.reads place action).toList ++ tokens later (marks.register place action)

theorem follow_append (memory : Nat) (stream : Bytes) (first second : List (Nat × Http11.Action))
    (marks : Marks) (data : Parsed) :
    follow memory stream (first ++ second) marks data =
      (follow memory stream first marks data).bind
        (follow memory stream second (marks.after first)) := by
  induction first generalizing marks data with
  | nil => rfl
  | cons event later ih =>
      rw [List.cons_append, follow, follow]
      split
      · rfl
      · exact ih _ _

theorem tokens_append (first second : List (Nat × Http11.Action)) (marks : Marks) :
    tokens (first ++ second) marks = tokens first marks ++ tokens second (marks.after first) := by
  induction first generalizing marks with
  | nil => rfl
  | cons event later ih =>
      rw [List.cons_append, tokens, tokens, ih, List.append_assoc]
      rfl

/-- An error that a callback has set stays. -/
theorem error_of_follow {memory : Nat} {stream : Bytes} {events : List (Nat × Http11.Action)}
    {marks : Marks} {data next : Parsed} (followed : follow memory stream events marks data = some next)
    (error : data.m_error ≠ 0) : next.m_error ≠ 0 := by
  induction events generalizing marks data with
  | nil =>
      cases followed
      exact error
  | cons event later ih =>
      obtain ⟨place, action⟩ := event
      rw [follow] at followed
      split at followed
      · cases followed
      next after called =>
        refine ih followed ?_
        cases action with
        | write_value =>
            simp only [callback, Parsed.on_request_http_field] at called
            split at called
            · cases called
              exact error
            · split at called
              · cases called
                exact error
              · cases called
        | request_method =>
            cases called
            rw [Parsed.on_request_method]
            split
            · simp [Parsed.setError]
            · exact error
        | http_version =>
            cases called
            rw [Parsed.on_request_version]
            split
            · exact error
            · split
              · exact error
              · simp [Parsed.setError]
        | fragment | query_string | request_path =>
            obtain ⟨part, -, rfl⟩ := Option.map_eq_some_iff.mp called
            exact error
        | _ =>
            cases called
            exact error

end Marks

end Exhy.Http
