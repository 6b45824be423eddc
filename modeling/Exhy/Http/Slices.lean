import Exhy.Http.Fragmentation
import Exhy.Library.Positions

/-!
# The slices that the callbacks get

The parser hands slices of the buffer to its callbacks, from marks that are offsets into the
buffer of the call that set them.  Every call sets `mark`, `field_start` and `field_len` anew,
but not `query_start`: a query that began in an earlier call is measured from where it began
there.
-/

namespace Exhy.Http

open Library

/-- A slice: where it starts and how long it is. -/
abbrev Slice := Nat × Int

/-- The slice is part of a buffer, and its length is no difference that wraps. -/
def Slice.Inside (length : Nat) (slice : Slice) : Prop :=
  0 ≤ slice.2 ∧ slice.1 + slice.2 ≤ length

namespace HttpParser

/-- The slices that an action hands to its callback, in a buffer of `length` bytes. -/
def slices (parser : HttpParser) (length fpc : Nat) : Http11.Action → List Slice
  | .write_value =>
      [(parser.field_start, parser.field_len), (parser.mark, fpc - parser.mark)]
  | .request_method | .request_uri | .fragment | .http_version | .request_path =>
      [(parser.mark, fpc - parser.mark)]
  | .query_string => [(parser.query_start, fpc - parser.query_start)]
  | .done =>
      if parser.xml_sent || parser.json_sent then [] else [(fpc + 1, length - fpc - 1)]
  | .mark | .start_field | .write_field | .start_value | .start_query | .xml | .json => []

/-- A callback whose slices have a length returns. -/
theorem callback_returns {parser : HttpParser} {buffer : Bytes} {fpc : Nat}
    {action : Http11.Action} (inside : ∀ slice ∈ parser.slices buffer.length fpc action, 0 ≤ slice.2)
    (data : Parsed) : ∃ after, parser.callback buffer fpc data action = some after := by
  have read : ∀ (start : Bytes) {length : Int}, 0 ≤ length →
      text start length = some (start.take length.toNat) := fun start length whole =>
    if_neg (Int.not_lt.mpr whole)
  cases action with
  | write_value =>
      have field := inside _ List.mem_cons_self
      have value := inside _ (List.mem_cons_of_mem _ List.mem_cons_self)
      rw [callback, Parsed.on_request_http_field]
      split
      · exact ⟨_, rfl⟩
      · rw [read _ field, read _ value]
        exact ⟨_, rfl⟩
  | fragment | query_string | request_path =>
      have whole := inside _ List.mem_cons_self
      rw [callback]
      simp only [Parsed.on_request_fragment, Parsed.on_request_query, Parsed.on_request_path]
      rw [read _ whole]
      exact ⟨_, rfl⟩
  | _ => exact ⟨_, rfl⟩

end HttpParser

namespace HttpRequestParser

open Machine

/-- The slices of a run of actions, up to a callback that throws. -/
def handed (buffer : Bytes) : List (Nat × Http11.Action) → HttpRequestParser → List Slice
  | [], _ => []
  | (fpc, action) :: later, parser =>
      parser.mParser.slices buffer.length fpc action ++
        match parser.mParser.callback buffer fpc parser.toParsed action with
        | none => []
        | some data => handed buffer later ⟨data, parser.mParser.register fpc action⟩

/-- The slices of a call. -/
def slices (parser : HttpRequestParser) (buffer : Bytes) : List Slice :=
  handed buffer (scan breaks buffer 0 parser.mParser.cs).events parser.reset

/-- Where a run of actions ends a query that it has not begun. -/
def queryEnd : List (Nat × Http11.Action) → Option Nat
  | [] => none
  | (_, .start_query) :: _ => none
  | (place, .query_string) :: _ => some place
  | _ :: later => queryEnd later

/-- Every value is written behind the end of its name; `isOpen` says that a name has begun. -/
def fieldsOrdered : (isOpen : Bool) → List (Nat × Http11.Action) → Bool
  | _, [] => true
  | _, (_, .start_field) :: later => fieldsOrdered true later
  | _, (_, .write_field) :: later => fieldsOrdered false later
  | isOpen, (_, .write_value) :: later => !isOpen && fieldsOrdered isOpen later
  | isOpen, _ :: later => fieldsOrdered isOpen later

/-! ## The slices of a call -/

/-- The marks of this call lie behind `place`, the ones of a name once it has ended. -/
structure Marked (place : Nat) (isOpen : Bool) (parser : HttpParser) : Prop where
  mark : parser.mark ≤ place
  field_start : parser.field_start ≤ place
  field_len : 0 ≤ parser.field_len
  field : isOpen = false → parser.field_start + parser.field_len ≤ place

section Call

variable {buffer : Bytes} {place : Nat} {isOpen : Bool} {parser : HttpParser}

theorem Marked.mono (marked : Marked place isOpen parser) {more : Nat} (further : place ≤ more) :
    Marked more isOpen parser where
  mark := Nat.le_trans marked.mark further
  field_start := Nat.le_trans marked.field_start further
  field_len := marked.field_len
  field ended := Int.le_trans (marked.field ended) (Int.ofNat_le.mpr further)

theorem queryEnd_ge {events : List (Nat × Http11.Action)} {least last : Nat}
    (ordered : ∀ event ∈ events, least ≤ event.1) (ends : queryEnd events = some last) :
    least ≤ last := by
  induction events with
  | nil => cases ends
  | cons event later ih =>
      obtain ⟨fpc, action⟩ := event
      have rest := ih fun other member => ordered other (List.mem_cons_of_mem _ member)
      cases action with
      | start_query => cases ends
      | query_string =>
          cases ends
          exact ordered _ List.mem_cons_self
      | _ => exact rest ends

/-- A text from `mark` up to the byte in hand. -/
theorem Marked.text (marked : Marked place isOpen parser) (within : place < buffer.length) :
    Slice.Inside buffer.length (parser.mark, (place : Int) - parser.mark) := by
  have mark := marked.mark
  constructor
  · show (0 : Int) ≤ place - parser.mark
    omega
  · show (parser.mark : Int) + (place - parser.mark) ≤ buffer.length
    omega

/-- An action that ends no query hands over slices of the buffer. -/
theorem Marked.inside (marked : Marked place isOpen parser) (within : place < buffer.length)
    {action : Http11.Action} {later : List (Nat × Http11.Action)}
    (ordered : fieldsOrdered isOpen ((place, action) :: later) = true)
    (noQuery : action ≠ .query_string) :
    ∀ slice ∈ parser.slices buffer.length place action, slice.Inside buffer.length := by
  cases action with
  | query_string => exact absurd rfl noQuery
  | write_value =>
      rw [fieldsOrdered, Bool.and_eq_true, Bool.not_eq_true'] at ordered
      intro slice member
      rcases List.mem_cons.mp member with rfl | member
      · have field := marked.field ordered.1
        constructor
        · exact marked.field_len
        · show (parser.field_start : Int) + parser.field_len ≤ buffer.length
          omega
      · rw [List.mem_singleton.mp member]
        exact marked.text within
  | request_method | request_uri | fragment | http_version | request_path =>
      intro slice member
      rw [List.mem_singleton.mp member]
      exact marked.text within
  | done =>
      intro slice member
      rw [HttpParser.slices] at member
      split at member
      · cases member
      · rw [List.mem_singleton.mp member]
        constructor
        · show (0 : Int) ≤ buffer.length - place - 1
          omega
        · show ((place + 1 : Nat) : Int) + (buffer.length - place - 1) ≤ buffer.length
          omega
  | mark | start_field | write_field | start_value | start_query | xml | json =>
      intro slice member
      cases member

/-- The marks that an action leaves. -/
theorem Marked.register (marked : Marked place isOpen parser) {action : Http11.Action}
    {later : List (Nat × Http11.Action)}
    (ordered : fieldsOrdered isOpen ((place, action) :: later) = true) :
    ∃ stillOpen, Marked place stillOpen (parser.register place action) ∧
      fieldsOrdered stillOpen later = true := by
  have here : place ≤ place := Nat.le_refl place
  cases action with
  | mark | start_value =>
      exact ⟨isOpen, ⟨here, marked.field_start, marked.field_len, marked.field⟩, ordered⟩
  | start_field => exact ⟨true, ⟨marked.mark, here, marked.field_len, nofun⟩, ordered⟩
  | write_field =>
      have start := marked.field_start
      refine ⟨false, ⟨marked.mark, start, ?_, fun _ => ?_⟩, ordered⟩
      · show (0 : Int) ≤ place - parser.field_start
        omega
      · show (parser.field_start : Int) + (place - parser.field_start) ≤ place
        omega
  | write_value =>
      rw [fieldsOrdered, Bool.and_eq_true] at ordered
      exact ⟨isOpen, marked, ordered.2⟩
  | done =>
      refine ⟨isOpen, ?_, ordered⟩
      rw [HttpParser.register]
      split
      all_goals exact ⟨marked.mark, marked.field_start, marked.field_len, marked.field⟩
  | request_method | request_uri | fragment | query_string | http_version | request_path =>
      exact ⟨isOpen, marked, ordered⟩
  | start_query | xml | json =>
      exact ⟨isOpen, ⟨marked.mark, marked.field_start, marked.field_len, marked.field⟩, ordered⟩

theorem query_start_register (parser : HttpParser) (place : Nat) {action : Http11.Action}
    (other : action ≠ .start_query) :
    (parser.register place action).query_start = parser.query_start := by
  cases action with
  | start_query => exact absurd rfl other
  | done =>
      rw [HttpParser.register]
      split <;> rfl
  | _ => rfl

/-- The slices lie in the buffer exactly when the first query that ends has not begun behind
the place where it ends. -/
theorem handed_inside_iff {events : List (Nat × Http11.Action)} {parser : HttpRequestParser}
    (sorted : events.Pairwise fun first second => first.1 ≤ second.1)
    (within : ∀ event ∈ events, event.1 < buffer.length)
    (behind : ∀ event ∈ events, place ≤ event.1)
    (ordered : fieldsOrdered isOpen events = true)
    (marked : Marked place isOpen parser.mParser) :
    (∀ slice ∈ handed buffer events parser, slice.Inside buffer.length) ↔
      ∀ last, queryEnd events = some last → parser.mParser.query_start ≤ last := by
  induction events generalizing place isOpen parser with
  | nil =>
      constructor
      · exact fun _ => nofun
      · exact fun _ => nofun
  | cons event later ih =>
      obtain ⟨fpc, action⟩ := event
      obtain ⟨first, sortedLater⟩ := List.pairwise_cons.mp sorted
      have here : fpc < buffer.length := within _ List.mem_cons_self
      have now := marked.mono (behind _ List.mem_cons_self)
      obtain ⟨stillOpen, registered, orderedLater⟩ := now.register ordered
      have rest : ∀ data, (∀ slice ∈ handed buffer later ⟨data, parser.mParser.register fpc action⟩,
          slice.Inside buffer.length) ↔ ∀ last, queryEnd later = some last →
            (parser.mParser.register fpc action).query_start ≤ last := by
        intro data
        have same : Marked fpc stillOpen
            (HttpRequestParser.mk data (parser.mParser.register fpc action)).mParser := registered
        exact ih sortedLater (fun other member => within other (List.mem_cons_of_mem _ member))
          first orderedLater same
      -- a slice that is inside lets the run go on
      have goes : (∀ slice ∈ parser.mParser.slices buffer.length fpc action,
          slice.Inside buffer.length) →
            ((∀ slice ∈ handed buffer ((fpc, action) :: later) parser,
              slice.Inside buffer.length) ↔ ∀ last, queryEnd later = some last →
                (parser.mParser.register fpc action).query_start ≤ last) := by
        intro inside
        obtain ⟨data, called⟩ := HttpParser.callback_returns
          (fun slice member => (inside slice member).1) parser.toParsed
        rw [← rest data, handed, called]
        constructor
        · exact fun whole slice member => whole slice (List.mem_append_right _ member)
        · intro after slice member
          rcases List.mem_append.mp member with isHere | isLater
          · exact inside slice isHere
          · exact after slice isLater
      by_cases isEnd : action = .query_string
      · subst isEnd
        have ends : queryEnd ((fpc, .query_string) :: later) = some fpc := rfl
        by_cases begun : parser.mParser.query_start ≤ fpc
        · rw [goes]
          · constructor
            · intro _ last isLast
              cases isLast
              exact begun
            · exact fun _ last isLast => Nat.le_trans begun (queryEnd_ge first isLast)
          · intro slice member
            rw [List.mem_singleton.mp member]
            constructor
            · show (0 : Int) ≤ fpc - parser.mParser.query_start
              omega
            · show (parser.mParser.query_start : Int) + (fpc - parser.mParser.query_start) ≤ _
              omega
        · constructor
          · intro inside
            have wraps := (inside _ (List.mem_append_left _ List.mem_cons_self)).1
            have length : (0 : Int) ≤ fpc - parser.mParser.query_start := wraps
            omega
          · exact fun all => absurd (all fpc ends) begun
      · rw [goes (now.inside here ordered isEnd)]
        by_cases isStart : action = .start_query
        · subst isStart
          constructor
          · exact fun _ => nofun
          · exact fun _ last isLast => queryEnd_ge first isLast
        · rw [query_start_register _ _ isStart]
          have same : queryEnd ((fpc, action) :: later) = queryEnd later := by
            cases action with
            | start_query => exact absurd rfl isStart
            | query_string => exact absurd rfl isEnd
            | _ => rfl
          rw [same]

end Call

/-! ## The order of the parts of a header -/

/-- The name of a header begins behind a line feed, ends with a colon, and comes before the
value; what goes on behind a line feed in a value is a blank. -/
def blanks : List (UInt8 × UInt8) := [(0x09, 0x09), (0x20, 0x20)]

def fieldChecked (machine : Machine Http11.Action) : Bool :=
  machine.owesBehind 0x0A blanks .write_field .write_value

theorem main_fields (uri_relaxed : Bool) :
    (Http11.Grammar.main uri_relaxed).positions.all (fun place =>
      (!place.2.brings .start_field || place.1 = [(0x0A, 0x0A)]) && fieldChecked place.2) = true ∧
      (Http11.Grammar.main uri_relaxed).brings .start_field = false ∧
      fieldChecked (Http11.Grammar.main uri_relaxed) = true := by
  cases uri_relaxed
  · decide +kernel
  · decide +kernel

theorem main_performs (uri_relaxed : Bool) :
    (Http11.Grammar.main uri_relaxed).performedOn Http11.Grammar.tokenBytes .start_field false =
        true ∧
      (Http11.Grammar.main uri_relaxed).performedOn [(0x3A, 0x3A)] .write_field false = true ∧
      (Http11.Grammar.main uri_relaxed).performedOn [(0x0D, 0x0D), (0x0A, 0x0A)] .write_value
        false = true := by
  cases uri_relaxed
  · decide +kernel
  · decide +kernel

/-- What every state of the machine keeps; `last` is the byte before. -/
structure FieldReady (uri_relaxed : Bool) (last : Option UInt8)
    (cs : List (Machine Http11.Action)) : Prop where
  comes : Comes (Http11.Grammar.main uri_relaxed) last cs
  behind : last = some 0x0A → Owing blanks .write_field .write_value cs
  start : PerformsOn Http11.Grammar.tokenBytes .start_field cs
  field : PerformsOn [(0x3A, 0x3A)] .write_field cs
  value : PerformsOn [(0x0D, 0x0D), (0x0A, 0x0A)] .write_value cs

section Order

variable {uri_relaxed : Bool} {last : Option UInt8} {cs next : List (Machine Http11.Action)}
  {code : UInt8} {actions : List Http11.Action}

theorem FieldReady.main (uri_relaxed : Bool) :
    FieldReady uri_relaxed none [Http11.Grammar.main uri_relaxed] := by
  obtain ⟨start, field, value⟩ := main_performs uri_relaxed
  constructor
  case comes => exact fun machine member => List.mem_singleton.mp member
  case behind => exact nofun
  case start => exact fun machine member => List.mem_singleton.mp member ▸ start
  case field => exact fun machine member => List.mem_singleton.mp member ▸ field
  case value => exact fun machine member => List.mem_singleton.mp member ▸ value

theorem FieldReady.checked (ready : FieldReady uri_relaxed last cs) :
    (∀ machine ∈ cs, fieldChecked machine = true) ∧
      ((∃ machine ∈ cs, machine.brings .start_field = true) → last = some 0x0A) := by
  obtain ⟨places, notFirst, whole⟩ := main_fields uri_relaxed
  have comes := ready.comes
  cases last with
  | none =>
      constructor
      · exact fun machine member => comes machine member ▸ whole
      · rintro ⟨machine, member, brings⟩
        rw [comes machine member, notFirst] at brings
        cases brings
  | some before =>
      have checked : ∀ machine ∈ cs, ∃ ranges, inRanges ranges before = true ∧
          (machine.brings .start_field = false ∨ ranges = [(0x0A, 0x0A)]) ∧
          fieldChecked machine = true := by
        intro machine member
        obtain ⟨ranges, isPlace, takes⟩ := comes machine member
        have holds := List.all_eq_true.mp places _ isPlace
        rw [Bool.and_eq_true, Bool.or_eq_true, Bool.not_eq_true', decide_eq_true_eq] at holds
        exact ⟨ranges, takes, holds.1, holds.2⟩
      constructor
      · intro machine member
        obtain ⟨-, -, -, holds⟩ := checked machine member
        exact holds
      · rintro ⟨machine, member, brings⟩
        obtain ⟨ranges, takes, never | rfl, -⟩ := checked machine member
        · rw [never] at brings
          cases brings
        · have same : (0x0A : UInt8) ≤ before ∧ before ≤ 0x0A := by simpa [inRanges] using takes
          rw [UInt8.le_antisymm same.2 same.1]

theorem FieldReady.step (ready : FieldReady uri_relaxed last cs)
    (stepped : Machine.step cs code = some (next, actions)) :
    FieldReady uri_relaxed (some code) next where
  comes := step_comes ready.comes stepped
  behind isFeed := by
    cases isFeed
    exact step_owesBehind ready.checked.1 stepped
  start := (step_performsOn ready.start stepped).1
  field := (step_performsOn ready.field stepped).1
  value := (step_performsOn ready.value stepped).1

/-- The actions of a header that one byte brings exclude each other, and behind the first one
the value waits for the end of the name. -/
theorem FieldReady.excludes (ready : FieldReady uri_relaxed last cs)
    (stepped : Machine.step cs code = some (next, actions)) :
    (.start_field ∈ actions → .write_value ∉ actions ∧
        ∀ machine ∈ next, machine.owes .write_field .write_value = true) ∧
      (.write_field ∈ actions → .write_value ∉ actions) := by
  have start := (step_performsOn ready.start stepped).2
  have field := (step_performsOn ready.field stepped).2
  have value := (step_performsOn ready.value stepped).2
  have apartField : apart Http11.Grammar.tokenBytes [(0x3A, 0x3A)] = true := by decide +kernel
  have apartBlanks : apart Http11.Grammar.tokenBytes blanks = true := by decide +kernel
  have apartEnds : apart [(0x3A, 0x3A)] [(0x0D, 0x0D), (0x0A, 0x0A)] = true := by decide +kernel
  constructor
  · intro begins
    have token := start begins
    have isFeed := ready.checked.2 (step_brings stepped begins)
    have other := not_inRanges_of_apart apartBlanks token
    rcases step_owing (ready.behind isFeed) other stepped with ends | kept
    · have colon := not_inRanges_of_apart apartField token
      rw [field ends] at colon
      cases colon
    · exact kept
  · intro ends writes
    have other := not_inRanges_of_apart apartEnds (field ends)
    rw [value writes] at other
    cases other

/-- Whether a name has begun and not ended behind some actions. -/
def openAfter : Bool → List Http11.Action → Bool
  | isOpen, [] => isOpen
  | _, .start_field :: later => openAfter true later
  | _, .write_field :: later => openAfter false later
  | isOpen, _ :: later => openAfter isOpen later

theorem fieldsOrdered_append (place : Nat) (isOpen : Bool)
    (later : List (Nat × Http11.Action)) :
    fieldsOrdered isOpen (actions.map (fun action => (place, action)) ++ later) =
      (fieldsOrdered isOpen (actions.map fun action => (place, action)) &&
        fieldsOrdered (openAfter isOpen actions) later) := by
  induction actions generalizing isOpen with
  | nil => rfl
  | cons action more ih =>
      cases action with
      | write_value =>
          rw [List.map_cons, List.cons_append, fieldsOrdered, fieldsOrdered, ih, Bool.and_assoc]
          rfl
      | start_field => exact ih true
      | write_field => exact ih false
      | _ => exact ih isOpen

theorem fieldsOrdered_of_absent (place : Nat) {isOpen : Bool}
    (value : .write_value ∈ actions → isOpen = false ∧ .start_field ∉ actions) :
    fieldsOrdered isOpen (actions.map fun action => (place, action)) = true := by
  induction actions generalizing isOpen with
  | nil => rfl
  | cons action more ih =>
      have rest : .write_value ∈ more → isOpen = false ∧ .start_field ∉ more := fun member =>
        (value (List.mem_cons_of_mem _ member)).imp_right
          fun absent isMore => absent (List.mem_cons_of_mem _ isMore)
      cases action with
      | write_value =>
          rw [List.map_cons, fieldsOrdered, (value List.mem_cons_self).1]
          exact ih fun member => ⟨rfl, (rest member).2⟩
      | start_field =>
          apply ih
          exact fun member =>
            absurd List.mem_cons_self (value (List.mem_cons_of_mem _ member)).2
      | write_field => exact ih fun member => ⟨rfl, (rest member).2⟩
      | _ => exact ih rest

theorem openAfter_eq_true {isOpen : Bool} (stays : openAfter isOpen actions = true) :
    .start_field ∈ actions ∨ isOpen = true ∧ .write_field ∉ actions := by
  induction actions generalizing isOpen with
  | nil => exact .inr ⟨stays, nofun⟩
  | cons action more ih =>
      cases action with
      | start_field => exact .inl List.mem_cons_self
      | write_field =>
          rcases ih stays with begins | ⟨isTrue, -⟩
          · exact .inl (List.mem_cons_of_mem _ begins)
          · cases isTrue
      | _ =>
          rcases ih stays with begins | ⟨isTrue, absent⟩
          · exact .inl (List.mem_cons_of_mem _ begins)
          · exact .inr ⟨isTrue, by simpa using absent⟩

/-- In a run of the machine every value is written behind the end of its name. -/
theorem fieldsOrdered_scan {isOpen : Bool} {text : Bytes} {place : Nat}
    (ready : FieldReady uri_relaxed last cs)
    (owing : isOpen = true → Owing [] .write_field .write_value cs) :
    fieldsOrdered isOpen (scan breaks text place cs).events = true := by
  induction text generalizing isOpen place last cs with
  | nil => rfl
  | cons code rest ih =>
      rw [scan]
      split
      · rfl
      next next actions stepped =>
        obtain ⟨begins, ends⟩ := ready.excludes stepped
        have here : fieldsOrdered isOpen
            ((untilBreak breaks actions).map fun action => (place, action)) = true := by
          apply fieldsOrdered_of_absent
          intro member
          have writes := mem_of_mem_untilBreak member
          constructor
          · by_contra isTrue
            rcases step_owing (owing (Bool.of_not_eq_false isTrue)) rfl stepped with
              field | ⟨absent, -⟩
            · exact ends field writes
            · exact absent writes
          · intro isStart
            exact (begins (mem_of_mem_untilBreak isStart)).1 writes
        dsimp only
        split
        next => exact here
        next going =>
          rw [Scan.after, fieldsOrdered_append, here, Bool.true_and]
          apply ih (ready.step stepped)
          intro stays
          have whole := untilBreak_of_not_any (Bool.of_not_eq_true going)
          rw [whole] at stays
          intro machine member
          left
          rcases openAfter_eq_true stays with isStart | ⟨isTrue, absent⟩
          · exact (begins isStart).2 machine member
          · rcases step_owing (owing isTrue) rfl stepped with field | ⟨-, owes⟩
            · exact absurd field absent
            · exact owes machine member

end Order

/-! ## A call -/

/-- The parser is at a state of its machine, and not in the error state. -/
def AtState (uri_relaxed : Bool) (parser : HttpRequestParser) : Prop :=
  parser.mParser.cs ≠ [] ∧ ∃ last, FieldReady uri_relaxed last parser.mParser.cs

/-- The place in a buffer where a call ends a query that an earlier call has begun. -/
def endsQuery (parser : HttpRequestParser) (buffer : Bytes) : Option Nat :=
  queryEnd (scan breaks buffer 0 parser.mParser.cs).events

theorem atState_init (memory : HttpParser) : AtState memory.uri_relaxed (.init memory) :=
  ⟨List.cons_ne_nil _ _, none, .main memory.uri_relaxed⟩

theorem atState_execute {uri_relaxed : Bool} {parser next : HttpRequestParser}
    {buffer left : Bytes} (atState : AtState uri_relaxed parser) (nonempty : buffer ≠ [])
    (executed : parser.execute buffer = some (next, left)) (noError : next.hasError = false) :
    AtState uri_relaxed next := by
  obtain ⟨going, last, ready⟩ := atState
  have alive : next.mParser.cs ≠ [] := by
    intro error
    rw [hasError, http_parser_has_error, error, decide_eq_true rfl, Bool.or_true] at noError
    cases noError
  refine ⟨alive, ?_⟩
  rw [execute_eq nonempty going, Option.map_eq_some_iff] at executed
  obtain ⟨ran, -, same⟩ := executed
  cases same
  apply scan_keeps (fun cs => ∃ last, FieldReady uri_relaxed last cs)
  case error =>
    refine ⟨none, fun _ => (absurd · List.not_mem_nil), ?_, fun _ => (absurd · List.not_mem_nil),
      fun _ => (absurd · List.not_mem_nil), fun _ => (absurd · List.not_mem_nil)⟩
    intro isLast
    cases isLast
  case step_keeps =>
    rintro state next code actions ⟨before, isReady⟩ stepped
    exact ⟨some code, isReady.step stepped⟩
  case start => exact ⟨last, ready⟩

/-- The slices of a call lie in its buffer exactly when it ends no query before the offset at
which the query began in an earlier call. -/
theorem slices_inside_iff {uri_relaxed : Bool} {parser : HttpRequestParser} (buffer : Bytes)
    (atState : AtState uri_relaxed parser) :
    (∀ slice ∈ parser.slices buffer, slice.Inside buffer.length) ↔
      ∀ last, parser.endsQuery buffer = some last → parser.mParser.query_start ≤ last := by
  obtain ⟨-, last, ready⟩ := atState
  have fresh : Marked 0 false parser.reset.mParser := by
    constructor
    case mark => exact Nat.le_refl 0
    case field_start => exact Nat.le_refl 0
    case field_len => exact Int.le_refl 0
    case field => exact fun _ => Int.le_refl 0
  apply handed_inside_iff (scan_sorted buffer 0 parser.mParser.cs)
  · exact fun event member => Nat.zero_add buffer.length ▸ (mem_scan member).2
  · exact fun event _ => Nat.zero_le _
  · exact fieldsOrdered_scan ready (fun isTrue => absurd isTrue Bool.false_ne_true)
  · exact fresh

end HttpRequestParser

namespace HttpSession

open HttpRequestParser

/-! ## The calls of a receive -/

/-- A call that the loop of `recvRequest` makes: the parser before it and its buffer. -/
inductive Calls (buff_size : Nat) :
    (parser : HttpRequestParser) → (data : Bytes) → Socket → HttpRequestParser → Bytes → Prop where
  | here {parser : HttpRequestParser} {data : Bytes} {socket : Socket}
      (some : (read (buff_size - data.length) socket).1 ≠ []) :
      Calls buff_size parser data socket parser
        (data ++ (read (buff_size - data.length) socket).1)
  | later {parser next called : HttpRequestParser} {data left buffer : Bytes} {socket : Socket}
      (some : (read (buff_size - data.length) socket).1 ≠ [])
      (executed : parser.execute (data ++ (read (buff_size - data.length) socket).1) =
        .some (next, left))
      (noError : next.hasError = false) (notFull : (left.length : Int) ≠ toInt32 buff_size)
      (unfinished : next.isFinished = 0)
      (rest : Calls buff_size next left (read (buff_size - data.length) socket).2 called buffer) :
      Calls buff_size parser data socket called buffer

theorem Calls.atState {buff_size : Nat} {uri_relaxed : Bool} {parser called : HttpRequestParser}
    {data buffer : Bytes} {socket : Socket}
    (calls : Calls buff_size parser data socket called buffer)
    (start : AtState uri_relaxed parser) : AtState uri_relaxed called := by
  induction calls with
  | here some => exact start
  | later some executed noError notFull unfinished rest ih =>
      apply ih
      exact atState_execute start (List.append_ne_nil_of_right_ne_nil _ some) executed noError

/-- The loop throws only in a call that it makes. -/
theorem calls_of_threw {buff_size fuel : Nat} {parser : HttpRequestParser} {data : Bytes}
    {socket : Socket} (threw : recvHeader buff_size fuel parser data socket = .error .threw) :
    ∃ called buffer, Calls buff_size parser data socket called buffer ∧
      called.execute buffer = none := by
  induction fuel generalizing parser data socket with
  | zero => cases threw
  | succ fuel ih =>
      rw [recvHeader] at threw
      dsimp only at threw
      split at threw
      next => cases threw
      next some =>
        split at threw
        next executed => exact ⟨parser, _, .here some, executed⟩
        next next left executed =>
          split at threw
          next => cases threw
          next noError =>
            split at threw
            next => cases threw
            next notFull =>
              split at threw
              next => cases threw
              next unfinished =>
                obtain ⟨called, buffer, calls, none⟩ := ih threw
                refine ⟨called, buffer, ?_, none⟩
                exact .later some executed (Bool.of_not_eq_true noError) notFull
                  (Classical.not_not.mp unfinished) calls

/-- However a stream is cut into reads, the slices of every call lie in its buffer exactly
when no call ends a query before the offset at which the query began in an earlier call. -/
theorem recvRequest_slices_iff (memory : HttpParser) (buff_size : Nat) (socket : Socket) :
    (∀ parser buffer, Calls buff_size (.init memory) [] socket parser buffer →
        ∀ slice ∈ parser.slices buffer, slice.Inside buffer.length) ↔
      ∀ parser buffer, Calls buff_size (.init memory) [] socket parser buffer →
        ∀ last, parser.endsQuery buffer = some last → parser.mParser.query_start ≤ last := by
  have atState := atState_init memory
  constructor
  · intro inside parser buffer calls
    exact (slices_inside_iff buffer (calls.atState atState)).mp (inside parser buffer calls)
  · intro behind parser buffer calls
    exact (slices_inside_iff buffer (calls.atState atState)).mpr (behind parser buffer calls)

/-- A query in two reads. -/
def cutQuery : Socket := [ascii "GET /aaaaaaaaaa?b", ascii "c HTTP/1.1\r\n\r\n"]

/-- The query ends at the offset 1 of the second read and began at 16 of the first. -/
theorem query_slice_wraps :
    ¬ ∀ parser buffer, Calls 4096 (.init zeros) [] cutQuery parser buffer →
      ∀ slice ∈ parser.slices buffer, slice.Inside buffer.length := by
  intro inside
  have first : ((init zeros).execute (ascii "GET /aaaaaaaaaa?b")).map (fun (next, left) =>
      (next.hasError, left, next.isFinished, next.slices (ascii "c HTTP/1.1\r\n\r\n"))) =
        some (false, [], 0, [(16, -15)]) := by
    decide +kernel
  cases executed : (init zeros).execute (ascii "GET /aaaaaaaaaa?b") with
  | none =>
      rw [executed] at first
      cases first
  | some result =>
      obtain ⟨next, left⟩ := result
      rw [executed] at first
      have parts := Option.some.inj first
      simp only [Prod.mk.injEq] at parts
      obtain ⟨noError, rfl, unfinished, slices⟩ := parts
      have calls : Calls 4096 (.init zeros) [] cutQuery next (ascii "c HTTP/1.1\r\n\r\n") :=
        .later (by decide) executed noError (by decide) unfinished (.here (by decide))
      have wraps := inside next _ calls (16, -15) (slices ▸ List.mem_singleton_self _)
      exact absurd wraps.1 (by decide)

end HttpSession

end Exhy.Http
